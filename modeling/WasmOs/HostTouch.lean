import WasmOs.Host

/-!
# What a host function touches

A host function reads and writes only inside the parts of the memory that it has made its own with the
pointers and lengths among its arguments.
-/

namespace WasmOs

open Hoare

section
variable {ω α β : Type} {ranges : List (Nat × Nat)} {t₀ : List (Nat × Nat)}

def Covered (ranges : List (Nat × Nat)) (r : Nat × Nat) : Prop := r.2 ≤ r.1 ∨ ∃ q ∈ ranges, q.1 ≤ r.1 ∧ r.2 ≤ q.2

/-- All that was touched after `t₀` is covered. -/
def TouchesIn (ranges t₀ : List (Nat × Nat)) (v : HostView (Traced ω)) : Prop :=
  ∃ new, v.world.touched = t₀ ++ new ∧ ∀ r ∈ new, Covered ranges r

theorem TouchesIn.congr {v v' : HostView (Traced ω)} (h : TouchesIn ranges t₀ v)
    (ht : v'.world.touched = v.world.touched) :
    TouchesIn ranges t₀ v' := by
  obtain ⟨new, hnew, hc⟩ := h
  exact ⟨new, ht.trans hnew, hc⟩

theorem touchesIn_refl (v : HostView (Traced ω)) : TouchesIn ranges v.world.touched v :=
  ⟨[], (List.append_nil _).symm, fun _ h => absurd h (List.not_mem_nil)⟩

abbrev Stays (ranges t₀ : List (Nat × Nat)) (m : Host ω α) : Prop := Keeps (TouchesIn ranges t₀) m

theorem stays_pushHost (r : BitVec 64) : Stays ranges t₀ (pushHost r : Host ω Unit) :=
  keeps_get fun _ hv => wp_ite.mpr ⟨fun _ => hv, fun _ => hv.congr rfl⟩

theorem stays_roomHost : Stays ranges t₀ (roomHost : Host ω Unit) :=
  keeps_get fun _ hv => wp_ite.mpr ⟨fun _ => hv, fun _ => hv⟩

theorem stays_sliceMem_bind {memLen lo hi : Nat} {f : Unit → Host ω α}
    (h : lo ≤ hi → hi ≤ memLen → Stays ranges t₀ (f ())) :
    Stays ranges t₀ (sliceMem memLen lo hi >>= f) := by
  unfold sliceMem
  by_cases hin : lo ≤ hi ∧ hi ≤ memLen
  · rw [if_pos hin]
    exact h hin.1 hin.2
  · rw [if_neg hin]
    exact fun _ hv => hv

theorem stays_touch {lo hi : Nat} (h : Covered ranges (lo, hi)) : Stays ranges t₀ (touch lo hi : Host ω Unit) := by
  refine keeps_modify fun v hv => ?_
  obtain ⟨new, hnew, hc⟩ := hv
  refine ⟨new ++ [(lo, hi)], ?_, ?_⟩
  · simp only [hnew, List.append_assoc]
  · intro r hr
    rcases List.mem_append.mp hr with hr | hr
    · exact hc r hr
    · rw [List.mem_singleton.mp hr]
      exact h

theorem stays_readMem {memLen lo hi : Nat} (h : lo ≤ hi → hi ≤ memLen → Covered ranges (lo, hi)) :
    Stays ranges t₀ (readMem memLen lo hi : Host ω (List UInt8)) := by
  refine stays_sliceMem_bind fun hlo hhi => keeps_bind (stays_touch (h hlo hhi)) fun _ => ?_
  exact keeps_get fun _ hv => hv

theorem stays_writeMem {memLen lo : Nat} {data : List UInt8}
    (h : lo + data.length ≤ memLen → Covered ranges (lo, lo + data.length)) :
    Stays ranges t₀ (writeMem memLen lo data : Host ω Unit) := by
  refine stays_sliceMem_bind fun _ hhi => keeps_bind (stays_touch (h hhi)) fun _ => ?_
  exact keeps_modify fun _ hv => hv.congr rfl

theorem stays_service (f : ω → Rust Empty (α × ω)) : Stays ranges t₀ (service f) := by
  intro v hv
  unfold wp service
  split
  · rename_i h
    split at h <;> cases h
    exact hv.congr rfl
  · rename_i h
    split at h <;> cases h <;> exact hv

theorem stays_service_bind {f : ω → Rust Empty (α × ω)} {g : α → Host ω β}
    (hg : ∀ a, (∃ w w', f w = .ok (a, w')) → Stays ranges t₀ (g a)) : Stays ranges t₀ (service f >>= g) := by
  intro v hv
  refine (wp_bind _).mpr ?_
  unfold wp service
  split
  · rename_i h
    split at h <;> cases h
    rename_i w hf
    exact hg _ ⟨_, w, hf⟩ _ (hv.congr rfl)
  · rename_i h
    split at h <;> cases h <;> exact hv

theorem stays_perform (f : ω → Rust Empty ω) : Stays ranges t₀ (perform f) := stays_service _

theorem stays_inform (f : ω → ω) : Stays ranges t₀ (inform f) := keeps_modify fun _ hv => hv.congr rfl

theorem stays_query (f : ω → α) : Stays ranges t₀ (query f) := keeps_get fun _ hv => hv

def argsAt (v : HostView (Traced ω)) (n i : Nat) : BitVec 64 := v.vstack (v.vsp - n + i)

/-- A call touches only what it has made its own. -/
def TouchesOnly (m : Host ω α) (ranges : List (Nat × Nat)) (v : HostView (Traced ω)) : Prop :=
  wp m (fun _ => TouchesIn ranges v.world.touched) (fun _ => TouchesIn ranges v.world.touched) v

theorem touchesOnly_args {n : Nat} {f : (Nat → BitVec 64) → Host ω β} {v : HostView (Traced ω)}
    (h : wp (f (argsAt v n)) (fun _ => TouchesIn ranges v.world.touched) (fun _ => TouchesIn ranges v.world.touched)
      { v with vsp := v.vsp - n }) : TouchesOnly (popArgs n >>= f) ranges v := by
  refine (wp_bind _).mpr ((wp_bind _).mpr (wp_get.mpr (wp_ite.mpr ⟨fun _ => touchesIn_refl v, fun _ => ?_⟩)))
  refine wp_ite.mpr ⟨fun _ => touchesIn_refl v, fun _ => ?_⟩
  exact h

theorem touchesOnly_popArgs {n : Nat} {f : (Nat → BitVec 64) → Host ω β} {v : HostView (Traced ω)}
    (h : Stays ranges v.world.touched (f (argsAt v n))) : TouchesOnly (popArgs n >>= f) ranges v :=
  touchesOnly_args (h _ ((touchesIn_refl v).congr rfl))

theorem touchesOnly_of_stays {m : Host ω α} {v : HostView (Traced ω)} (h : Stays ranges v.world.touched m) :
    TouchesOnly m ranges v := h v (touchesIn_refl v)

theorem covered_whole {memLen ptr len lo hi : Nat} (hle : ¬ memLen < satAdd ptr len) (hlo : ptr ≤ lo)
    (hhi : hi ≤ ptr + len) :
    Covered (whole memLen ptr len) (lo, hi) := by
  refine .inr ⟨(ptr, ptr + len), ?_, hlo, hhi⟩
  unfold whole
  rw [if_neg hle]
  exact List.mem_singleton.mpr rfl

theorem covered_clipped {memLen ptr len lo hi : Nat} (hlo : ptr ≤ lo) (hhi : hi ≤ min (satAdd ptr len) memLen) :
    Covered (clipped memLen ptr len) (lo, hi) :=
  .inr ⟨_, List.mem_singleton.mpr rfl, hlo, hhi⟩

theorem satAdd_of_le {memLen a b : Nat} (hfit : memLen < usizeMax) (h : ¬ memLen < satAdd a b) :
    satAdd a b = a + b := by
  unfold satAdd at h ⊢
  omega

end

section
variable {ω : Type} (S : Services ω) {fuel memLen : Nat} {ranges t₀ : List (Nat × Nat)}

theorem stays_readChar : ∀ fuel, Stays ranges t₀ (hostReadChar.loop S fuel)
  | 0 => keeps_throw _
  | fuel + 1 => keeps_bind (stays_service _) fun key => by
    cases key with
    | char c => exact keeps_pure _
    | enter => exact keeps_pure _
    | backspace => exact stays_readChar fuel
    | other => exact stays_readChar fuel

theorem stays_readLine {ptr cap : Nat} (h : ∀ i, i < cap → Covered ranges (ptr + i, ptr + i + 1)) :
    ∀ fuel len, Stays ranges t₀ (hostReadLine.loop S memLen ptr cap fuel len)
  | 0, _ => keeps_throw _
  | fuel + 1, len => keeps_bind (stays_service _) fun key => by
    cases key with
    | enter => exact keeps_bind (stays_perform _) fun _ => keeps_pure _
    | backspace =>
      exact keeps_ite (fun _ => keeps_bind (stays_perform _) fun _ => stays_readLine h fuel _) fun _ =>
        stays_readLine h fuel _
    | char c =>
      refine keeps_ite (fun hc => ?_) fun _ => stays_readLine h fuel _
      exact keeps_bind (stays_writeMem fun _ => h len hc.2) fun _ => keeps_bind (stays_perform _) fun _ =>
        stays_readLine h fuel _
    | other => exact stays_readLine h fuel _

variable (hfit : memLen < usizeMax)
include hfit

theorem stays_fsRead {namePtr nameLen bufPtr bufCap : Nat} : Stays
    (if memLen < satAdd namePtr nameLen then [] else (namePtr, namePtr + nameLen) :: whole memLen bufPtr bufCap) t₀
    (fsRead S memLen namePtr nameLen bufPtr bufCap) := by
  refine keeps_ite (fun _ => keeps_pure _) fun hname => ?_
  rw [if_neg hname]
  refine keeps_bind (stays_readMem fun _ _ =>
    .inr ⟨_, .head _, Nat.le_refl _, Nat.le_of_eq (satAdd_of_le hfit hname)⟩) fun name => ?_
  refine keeps_ite (fun _ => keeps_pure _) fun _ => keeps_bind (stays_query _) fun file => ?_
  cases file with
  | none => exact keeps_pure _
  | some data =>
    refine keeps_ite (fun _ => keeps_pure _) fun hbuf => ?_
    refine keeps_bind (stays_writeMem fun _ => ?_) fun _ => keeps_pure _
    have hlen : data.length ≤ bufCap := by omega
    obtain hempty | ⟨q, hq, hlo, hhi⟩ :=
      covered_whole (fun h => hbuf (.inl h)) (Nat.le_refl bufPtr) (Nat.add_le_add_left hlen bufPtr)
    · exact .inl hempty
    · exact .inr ⟨q, .tail _ hq, hlo, hhi⟩

omit hfit in
theorem stays_fsWrite {namePtr nameLen bufPtr bufLen : Nat} : Stays
    (if memLen < satAdd namePtr nameLen ∨ memLen < satAdd bufPtr bufLen then []
      else [(namePtr, namePtr + min nameLen 64), (bufPtr, bufPtr + bufLen)]) t₀
    (fsWrite S memLen namePtr nameLen bufPtr bufLen) := by
  refine keeps_ite (fun _ => keeps_pure _) fun hin => ?_
  rw [if_neg hin]
  refine keeps_bind (stays_readMem fun _ _ => .inr ⟨_, .head _, Nat.le_refl _, Nat.le_refl _⟩) fun name => ?_
  refine keeps_ite (fun _ => keeps_pure _) fun _ => ?_
  refine keeps_bind (stays_readMem fun _ _ => .inr ⟨_, .tail _ (.head _), Nat.le_refl _, Nat.le_refl _⟩)
    fun data => ?_
  exact keeps_bind (stays_service _) fun ok => keeps_ite (fun _ => keeps_pure _) fun _ => keeps_pure _

theorem stays_fsSize {namePtr nameLen : Nat} :
    Stays (whole memLen namePtr nameLen) t₀ (fsSize S memLen namePtr nameLen) := by
  refine keeps_ite (fun _ => keeps_pure _) fun hname => ?_
  refine keeps_bind (stays_readMem fun _ _ => covered_whole hname (Nat.le_refl _)
    (Nat.le_of_eq (satAdd_of_le hfit hname))) fun name => ?_
  refine keeps_ite (fun _ => keeps_pure _) fun _ => keeps_bind (stays_query _) fun file => ?_
  cases file with
  | none => exact keeps_pure _
  | some data => exact keeps_pure _

omit hfit in
theorem stays_receive {ptr : Nat} {failed : BitVec 64} {r : Option (List UInt8)}
    (h : ∀ data, r = some data → Covered ranges (ptr, ptr + data.length)) :
    Stays ranges t₀ (receive (ω := ω) memLen ptr failed r) := by
  cases r with
  | none => exact keeps_pure _
  | some data => exact keeps_bind (stays_writeMem fun _ => h data rfl) fun _ => keeps_pure _

omit hfit in
theorem touchesOnly_netCall {α : Type} (n : Nat) (call : (Nat → BitVec 64) → ω → Rust Empty (α × ω))
    (result : α → BitVec 64) (v : HostView (Traced ω)) : TouchesOnly (netCall n call result memLen) [] v :=
  touchesOnly_popArgs (keeps_bind (stays_service _) fun _ => stays_pushHost _)

omit hfit in
theorem stays_printLine (line : List UInt8) : Stays ranges t₀ (printLine S line) :=
  keeps_bind (stays_perform _) fun _ => stays_perform _

omit hfit in
theorem touchesOnly_printNumber (cap : Nat) (value : BitVec 64 → Int) (v : HostView (Traced ω)) :
    TouchesOnly (printNumber S cap value memLen) [] v :=
  touchesOnly_popArgs (keeps_bind (stays_service _) fun _ => stays_printLine S _)

omit hfit in
/-- The length of the arguments is that of the kernel's state at the call. -/
theorem touches_argsGet {ptr cap : Nat} {v : HostView (Traced ω)} {w : ω} (hw : v.world.rest = w)
    (hv : TouchesIn (if cap < (S.args w).length then [] else whole memLen ptr (S.args w).length) t₀ v) :
    wp (argsGet S memLen ptr cap)
      (fun _ => TouchesIn (if cap < (S.args w).length then [] else whole memLen ptr (S.args w).length) t₀)
      (fun _ => TouchesIn (if cap < (S.args w).length then [] else whole memLen ptr (S.args w).length) t₀) v := by
  refine (wp_bind _).mpr ((wp_bind _).mpr (wp_get.mpr ?_))
  show wp (if memLen < satAdd ptr (S.args v.world.rest).length ∨ cap < (S.args v.world.rest).length then _
    else _) _ _ v
  rw [hw]
  refine keeps_ite (fun _ => keeps_pure _) (fun hin => ?_) v hv
  refine keeps_bind (stays_writeMem fun _ => ?_) fun _ => keeps_pure _
  rw [if_neg fun h => hin (.inr h)]
  exact covered_whole (fun h => hin (.inl h)) (Nat.le_refl _) (Nat.le_refl _)

omit hfit in
theorem touchesOnly_hostArgsGet (v : HostView (Traced ω)) : TouchesOnly (hostArgsGet S memLen)
    (if (argsAt v 2 1).toNat < (S.args v.world.rest).length then []
      else whole memLen (argsAt v 2 0).toNat (S.args v.world.rest).length) v := by
  refine touchesOnly_args ((wp_bind _).mpr (wp_mono (fun r v' hv' => stays_pushHost r v' hv') (fun _ _ h => h) ?_))
  exact touches_argsGet S rfl ((touchesIn_refl v).congr rfl)

theorem touchesOnly_registry {e : HostEntry ω} (he : e ∈ hostRegistry S fuel) (v : HostView (Traced ω)) :
    TouchesOnly (e.func memLen) (e.asked memLen (argsAt v e.params) v.world.rest) v := by
  revert e
  unfold hostRegistry
  simp only [List.forall_mem_cons, List.not_mem_nil, false_imp_iff, implies_true, and_true]
  refine ⟨?_, ?_, ?_, ?_, ?_, ?_, ?_, ?_, ?_, ?_, ?_, ?_, ?_, ?_, ?_, ?_, ?_, ?_, ?_, ?_, ?_, ?_, ?_, ?_, ?_,
    ?_, ?_, ?_, ?_, ?_, ?_,
    ?_, ?_⟩
  · exact touchesOnly_popArgs
      (keeps_bind (stays_readMem fun _ _ => covered_clipped (Nat.le_refl _) (Nat.le_refl _)) fun _ =>
      keeps_ite (fun _ => stays_perform _) fun _ => keeps_pure _)
  · exact touchesOnly_printNumber S 11 (fun n => (lo32 n).toInt) v
  · exact touchesOnly_printNumber S 20 BitVec.toInt v
  · exact touchesOnly_popArgs (keeps_ite (fun _ => stays_perform _) fun _ => keeps_pure _)
  · exact touchesOnly_popArgs (stays_printLine S _)
  · exact touchesIn_refl v
  · exact touchesOnly_popArgs (keeps_bind (stays_inform _) fun _ => keeps_throw _)
  · exact touchesOnly_of_stays (keeps_bind stays_roomHost fun _ => keeps_bind (stays_query _) fun _ =>
      stays_pushHost _)
  · exact touchesOnly_of_stays (keeps_bind stays_roomHost fun _ => keeps_bind (stays_query _) fun _ =>
      stays_pushHost _)
  · exact touchesOnly_popArgs (keeps_throw _)
  · exact touchesOnly_of_stays (keeps_bind stays_roomHost fun _ => keeps_bind (stays_readChar S fuel) fun _ =>
      stays_pushHost _)
  · refine touchesOnly_popArgs (keeps_ite (fun _ => stays_pushHost _) fun hin => ?_)
    refine keeps_bind (stays_readLine S (fun i hi => ?_) fuel 0) fun _ => stays_pushHost _
    exact covered_whole hin (Nat.le_add_right _ _) (Nat.add_le_add_left (Nat.succ_le_of_lt hi) _)
  · exact touchesOnly_popArgs (keeps_bind (stays_fsRead S hfit) fun _ => stays_pushHost _)
  · exact touchesOnly_popArgs (keeps_bind (stays_fsWrite S) fun _ => stays_pushHost _)
  · exact touchesOnly_popArgs (keeps_bind (stays_fsSize S hfit) fun _ => stays_pushHost _)
  · exact touchesOnly_hostArgsGet S v
  · exact touchesOnly_popArgs (stays_perform _)
  · exact touchesIn_refl v
  · refine touchesOnly_popArgs (keeps_ite (fun _ => keeps_pure _) fun hin =>
      keeps_ite (fun _ => keeps_throw _) fun _ => ?_)
    exact keeps_bind (stays_readMem fun _ _ => covered_whole hin (Nat.le_refl _) (Nat.le_refl _)) fun _ =>
      stays_perform _
  · exact touchesOnly_netCall _ _ _ v
  · exact touchesOnly_netCall _ _ _ v
  · refine touchesOnly_popArgs (keeps_bind (stays_readMem fun _ hhi => ?_) fun _ =>
      keeps_bind (stays_service _) fun _ => stays_pushHost _)
    have hin := Nat.not_lt.mpr hhi
    exact covered_whole hin (Nat.le_refl _) (Nat.le_of_eq (satAdd_of_le hfit hin))
  · refine touchesOnly_popArgs (stays_sliceMem_bind fun hlo hhi => stays_service_bind fun r hr => ?_)
    refine keeps_bind (stays_receive fun data hdata => ?_) fun _ => stays_pushHost _
    obtain ⟨w, w', hr⟩ := hr
    rw [hdata] at hr
    have hlen := S.tcpRecv_le hr
    have hin := Nat.not_lt.mpr hhi
    rw [satAdd_of_le hfit hin] at hlen hlo
    exact covered_whole hin (Nat.le_refl _) (by omega)
  · exact touchesOnly_netCall _ _ _ v
  · exact touchesOnly_netCall _ _ _ v
  · exact touchesOnly_netCall _ _ _ v
  · exact touchesOnly_netCall _ _ _ v
  · exact touchesOnly_of_stays (keeps_bind stays_roomHost fun _ => keeps_bind (stays_query _) fun _ =>
      stays_pushHost _)
  · exact touchesOnly_netCall _ _ _ v
  · exact touchesOnly_netCall _ _ _ v
  · exact touchesOnly_popArgs
      (keeps_bind (stays_readMem fun _ _ => covered_clipped (Nat.le_refl _) (Nat.le_refl _)) fun _ =>
      keeps_bind (stays_service _) fun _ => stays_pushHost _)
  · refine touchesOnly_popArgs (stays_sliceMem_bind fun hlo hhi => stays_service_bind fun r hr => ?_)
    refine keeps_bind (stays_receive fun data hdata => ?_) fun _ => stays_pushHost _
    obtain ⟨w, w', hr⟩ := hr
    rw [hdata] at hr
    have hlen := S.udpRecv_le hr
    exact covered_clipped (Nat.le_refl _) (by omega)
  · exact touchesOnly_netCall _ _ _ v

end

end WasmOs
