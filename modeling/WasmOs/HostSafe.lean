import WasmOs.FmtInt
import WasmOs.HostTouch
import WasmOs.Kernel
import WasmOs.StackTotal

/-!
# Which host calls panic

A host function takes its pointers, lengths and handles from the value stack of the module. Most check
them before use; five slice the memory with a pointer that may lie past its end, six hand the socket
tables a handle that may lie past theirs, and `fb_blit` takes a pointer to words that may be unaligned. What is
printed can exhaust the kernel heap or overflow the cursor. With every other argument a call returns or fails
with an error of its own, and leaves the rest of the value stack as it was.
-/

namespace WasmOs

open Hoare Net Runs

section
variable {ω α β : Type}

/-- The call fails with an error of its own. -/
def OwnError (f : Fault InterpError) (_ : HostView (Traced ω)) : Prop := ∃ e, f = .err e

/-- The call returns with `Q` or fails with an error of its own. -/
abbrev HostSafe (m : Host ω α) (Q : α → HostView (Traced ω) → Prop) (v : HostView (Traced ω)) : Prop :=
  wp m Q OwnError v

/-- `results` values on top of the stack of `v₀`. -/
def Back (results : Nat) (v₀ v : HostView (Traced ω)) : Prop :=
  v.vsp = v₀.vsp + results ∧ ∀ i < v₀.vsp, v.vstack i = v₀.vstack i

/-- A host call: it returns with its results in place of its arguments, or fails with an error. -/
def CallSafe (e : HostEntry ω) (memLen : Nat) (v : HostView (Traced ω)) : Prop :=
  match e.func memLen v with
  | .ok _ v' => v'.vsp + e.params = v.vsp + e.results ∧ ∀ i < v.vsp - e.params, v'.vstack i = v.vstack i
  | .error f _ => ∃ err, f = .err err

theorem callSafe_wp {e : HostEntry ω} {memLen : Nat} {v : HostView (Traced ω)} : CallSafe e memLen v ↔
    HostSafe (e.func memLen)
      (fun _ v' => v'.vsp + e.params = v.vsp + e.results ∧ ∀ i < v.vsp - e.params, v'.vstack i = v.vstack i) v := by
  unfold CallSafe HostSafe wp
  split
  · rename_i h
    rw [h]
  · rename_i h
    rw [h]
    rfl

/-! ## The operations of a host function -/

section
variable {Q : α → HostView (Traced ω) → Prop} {v : HostView (Traced ω)}

theorem not_ownError_panic : ¬ OwnError .panic v := by
  rintro ⟨e, he⟩
  cases he

theorem not_ownError_hang : ¬ OwnError .hang v := by
  rintro ⟨e, he⟩
  cases he

theorem safe_popArgs {n : Nat} {Q : (Nat → BitVec 64) → HostView (Traced ω) → Prop} (hvsp : v.vsp ≤ STACK_DEPTH) :
    HostSafe (popArgs n) Q v ↔ (n ≤ v.vsp → Q (argsAt v n) { v with vsp := v.vsp - n }) := by
  unfold HostSafe popArgs
  simp only [wp_bind, wp_get, wp_ite, wp_throw, wp_set, wp_pure]
  constructor
  · intro h hn
    exact (h.2 (by omega)).2 (by omega)
  · intro h
    refine ⟨fun _ => ⟨_, rfl⟩, fun hn => ⟨fun hp => ?_, fun _ => h (by omega)⟩⟩
    have := hp.2
    omega

theorem safe_sliceMem {memLen lo hi : Nat} {Q : Unit → HostView (Traced ω) → Prop} :
    HostSafe (sliceMem memLen lo hi) Q v ↔ (lo ≤ hi ∧ hi ≤ memLen) ∧ Q () v := by
  unfold HostSafe sliceMem
  by_cases h : lo ≤ hi ∧ hi ≤ memLen
  · simp [h]
  · simp [h, not_ownError_panic]

theorem safe_readMem {memLen lo hi : Nat} {Q : List UInt8 → HostView (Traced ω) → Prop} :
    HostSafe (readMem memLen lo hi) Q v ↔ (lo ≤ hi ∧ hi ≤ memLen) ∧ Q (slice v.mem lo (hi - lo))
      { v with world := { v.world with touched := v.world.touched ++ [(lo, hi)] } } := by
  unfold readMem
  rw [HostSafe, wp_bind]
  exact safe_sliceMem

theorem safe_writeMem {memLen lo : Nat} {data : List UInt8} {Q : Unit → HostView (Traced ω) → Prop} :
    HostSafe (writeMem memLen lo data) Q v ↔ lo + data.length ≤ memLen ∧ Q ()
      { v with
        mem := blit v.mem lo data
        world := { v.world with touched := v.world.touched ++ [(lo, lo + data.length)] } } := by
  unfold writeMem
  rw [HostSafe, wp_bind]
  refine safe_sliceMem.trans ?_
  rw [show (lo ≤ lo + data.length ∧ lo + data.length ≤ memLen) = (lo + data.length ≤ memLen) by simp]
  rfl

theorem safe_service {f : ω → Rust Empty (α × ω)} : HostSafe (service f) Q v ↔
    ∃ a w, f v.world.rest = .ok (a, w) ∧ Q a { v with world := { v.world with rest := w } } := by
  unfold HostSafe wp service
  cases hf : f v.world.rest with
  | ok p =>
    constructor
    · intro h
      exact ⟨p.1, p.2, rfl, h⟩
    · rintro ⟨a, w, hp, h⟩
      cases hp
      exact h
  | error e =>
    cases e with
    | err e => exact e.elim
    | panic => simp [not_ownError_panic]
    | hang => simp [not_ownError_hang]

theorem safe_pushHost {r : BitVec 64} {v₀ : HostView (Traced ω)} (hvsp : v.vsp < STACK_DEPTH)
    (hs : v.vstack = v₀.vstack) (hp : v.vsp = v₀.vsp) : HostSafe (pushHost r) (fun _ => Back 1 v₀) v := by
  unfold HostSafe pushHost
  simp only [wp_bind, wp_get, wp_ite, wp_throw, wp_set]
  refine ⟨fun h => absurd hvsp (by omega), fun _ => ⟨by simp only [hp], fun i hi => ?_⟩⟩
  show upd v.vstack v.vsp r i = _
  rw [upd_of_ne _ _ (by omega), hs]

end

/-! ## Operations that leave the stack alone -/

/-- The value stack of `v₀`. -/
def SameStack (v₀ v : HostView (Traced ω)) : Prop := v.vstack = v₀.vstack ∧ v.vsp = v₀.vsp

/-- The operation returns or fails with an error, and leaves the value stack alone. -/
def HostStill (m : Host ω α) : Prop := ∀ v₀ v, SameStack v₀ v → HostSafe m (fun _ => SameStack v₀) v

theorem still_pure (a : α) : HostStill (pure a : Host ω α) := fun _ _ h => h

theorem still_err (e : InterpError) : HostStill (throw (.err e) : Host ω α) := fun _ _ _ => ⟨e, rfl⟩

theorem still_bind {m : Host ω α} {f : α → Host ω β} (hm : HostStill m) (hf : ∀ a, HostStill (f a)) :
    HostStill (m >>= f) := by
  intro v₀ v hv
  rw [HostSafe, wp_bind]
  exact wp_mono (fun a v' hv' => hf a v₀ v' hv') (fun _ _ h => h) (hm v₀ v hv)

theorem still_ite {p : Prop} [Decidable p] {m m' : Host ω α} (hm : p → HostStill m) (hm' : ¬ p → HostStill m') :
    HostStill (if p then m else m') := by
  split
  · exact hm ‹_›
  · exact hm' ‹_›

theorem still_readMem {memLen lo hi : Nat} (h : lo ≤ hi ∧ hi ≤ memLen) :
    HostStill (readMem memLen lo hi : Host ω (List UInt8)) :=
  fun _ _ hv => safe_readMem.mpr ⟨h, hv⟩

theorem still_writeMem {memLen lo : Nat} {data : List UInt8} (h : lo + data.length ≤ memLen) :
    HostStill (writeMem memLen lo data : Host ω Unit) :=
  fun _ _ hv => safe_writeMem.mpr ⟨h, hv⟩

theorem still_service {f : ω → Rust Empty (α × ω)} (hf : ∀ w, ∃ r, f w = .ok r) : HostStill (service f) := by
  intro v₀ v hv
  obtain ⟨r, hr⟩ := hf v.world.rest
  exact safe_service.mpr ⟨r.1, r.2, hr, hv⟩

theorem still_inform (f : ω → ω) : HostStill (inform f) := fun _ _ hv => hv

theorem still_query (f : ω → α) : HostStill (query f) := fun _ _ hv => hv

/-! ## Calls -/

section
variable {e : HostEntry ω} {memLen : Nat} {v : HostView (Traced ω)} (hvsp : v.vsp ≤ STACK_DEPTH)
include hvsp

theorem callSafe_iff {f : (Nat → BitVec 64) → Host ω Unit} (he : e.func memLen = (popArgs e.params >>= f)) :
    CallSafe e memLen v ↔ (e.params ≤ v.vsp → HostSafe (f (argsAt v e.params))
      (fun _ => Back e.results { v with vsp := v.vsp - e.params }) { v with vsp := v.vsp - e.params }) := by
  rw [callSafe_wp, he, HostSafe, wp_bind]
  refine (safe_popArgs hvsp).trans (forall_congr' fun hn => ?_)
  have hpost : ∀ v' : HostView (Traced ω), Back e.results { v with vsp := v.vsp - e.params } v' ↔
      v'.vsp + e.params = v.vsp + e.results ∧ ∀ i < v.vsp - e.params, v'.vstack i = v.vstack i := by
    intro v'
    refine and_congr ?_ Iff.rfl
    show v'.vsp = v.vsp - e.params + e.results ↔ _
    omega
  exact ⟨wp_mono (fun _ v' h => (hpost v').mpr h) fun _ _ h => h, wp_mono (fun _ v' h => (hpost v').mp h)
    fun _ _ h => h⟩

theorem callSafe_still {f : (Nat → BitVec 64) → Host ω Unit} (he : e.func memLen = (popArgs e.params >>= f))
    (hres : e.results = 0) (hf : ∀ a, HostStill (f a)) : CallSafe e memLen v := by
  refine (callSafe_iff hvsp he).mpr fun _ => ?_
  refine wp_mono (fun _ v' hv' => ?_) (fun _ _ h => h) (hf _ _ _ ⟨rfl, rfl⟩)
  rw [hres]
  exact ⟨hv'.2, fun i _ => by rw [hv'.1]⟩

theorem callSafe_push {f : (Nat → BitVec 64) → Host ω (BitVec 64)}
    (he : e.func memLen = (popArgs e.params >>= fun a => f a >>= pushHost)) (hpos : 0 < e.params)
    (hres : e.results = 1) (hf : ∀ a, HostStill (f a)) : CallSafe e memLen v := by
  refine (callSafe_iff hvsp he).mpr fun hn => ?_
  rw [HostSafe, wp_bind, hres]
  refine wp_mono (fun r v' hv' => ?_) (fun _ _ h => h) (hf _ _ _ ⟨rfl, rfl⟩)
  have hlt : v'.vsp < STACK_DEPTH := by
    rw [hv'.2]
    show v.vsp - e.params < _
    omega
  exact safe_pushHost hlt hv'.1 hv'.2

end

/-- A function that takes nothing and pushes one value. -/
theorem callSafe_room {e : HostEntry ω} {memLen : Nat} {v : HostView (Traced ω)} {m : Host ω Unit}
    (he : e.func memLen = (roomHost >>= fun _ => m)) (hpar : e.params = 0) (hres : e.results = 1)
    (hm : v.vsp < STACK_DEPTH → HostSafe m (fun _ => Back 1 v) v) : CallSafe e memLen v := by
  rw [callSafe_wp, he, HostSafe, wp_bind]
  unfold roomHost
  simp only [wp_bind, wp_get, wp_ite, wp_throw, wp_pure]
  refine ⟨fun _ => ⟨_, rfl⟩, fun hroom => ?_⟩
  refine wp_mono (fun _ v' hv' => ?_) (fun _ _ h => h) (hm (by omega))
  rw [hpar, hres]
  exact hv'

end

/-! ## Numbers -/

theorem fmtInt_i32 (n : BitVec 64) : ∃ text, fmtInt 11 (lo32 n).toInt = .ok text :=
  ⟨_, fmtInt_eq (by decide) (natAbs_i32 (lo32 n)) (by decide)⟩

theorem fmtInt_i64 (n : BitVec 64) : ∃ text, fmtInt 20 n.toInt = .ok text :=
  ⟨_, fmtInt_eq (by decide) (natAbs_i64 n) (by decide)⟩

/-! ## The network -/

section
variable {δ α β : Type} {f : Net.Stack → Rust Unit (Net.Stack × α)} {result : Option α → β} {k : KernelState δ}

theorem withNetwork_ok_iff : (∃ r, k.withNetwork f result = .ok r) ↔ ∀ st, k.network = some st → (f st).Total := by
  unfold KernelState.withNetwork
  cases hnet : k.network with
  | none => simp
  | some st =>
    rw [show (∀ st', some st = some st' → (f st').Total) ↔ (f st).Total by simp]
    cases hf : f st with
    | ok p => simp [hf]
    | error e => cases e <;> simp [hf, Rust.Total]

end

theorem socket_panic {t : NetworkStack} {i : Nat} (hi : ¬ i < MAX_SOCKETS) : t.socket i = .error .panic := if_neg hi

theorem udpSocket_panic {st : Net.Stack} {i : Nat} (hi : ¬ i < MAX_SOCKETS) :
    st.udpSocket i = .error .panic := if_neg hi

/-- The result of a call that may answer `Err(())`, from its state alone. -/
theorem total_of_fst {ε α β : Type} {m : Rust ε (α × β)} {e : ε} {P : α → Prop}
    (hm : m.map Prod.fst = .error (.err e) ∨ Rust.Ends (m.map Prod.fst) P) : m.Total := by
  cases m with
  | ok p => simp
  | error f =>
    obtain hf | ⟨a, ha, _⟩ := hm
    · cases hf
      simp
    · cases ha

section
variable {α : Type} {st : Net.Stack} (h : Net.Sound st)
include h

theorem onTcp_total {call : Rust Unit (NetworkStack × α)}
    (hcall : call.map Prod.fst = .error (.err ()) ∨ Rust.Ends (call.map Prod.fst) Outgoing) :
    (st.onTcp call).Total := by
  unfold Net.Stack.onTcp
  cases hc : call with
  | error e =>
    rw [hc] at hcall
    obtain he | ⟨t, ht, _⟩ := hcall
    · cases he
      simp
    · cases ht
  | ok p =>
    rw [hc] at hcall
    obtain he | ⟨t, ht, hout⟩ := hcall
    · cases he
    · cases ht
      obtain ⟨st', hst', _⟩ := withTcp_ends h hout
      simp [hst']

theorem onTcp_total_of_ends {call : Rust Unit (NetworkStack × α)} (hcall : call.Ends fun r => Outgoing r.1) :
    (st.onTcp call).Total := by
  obtain ⟨r, rfl, hr⟩ := hcall
  exact onTcp_total h (.inr ⟨r.1, rfl, hr⟩)

theorem tcpListen_total (port : UInt16) : (st.onTcp (.ok (st.tcp.tcpListen port))).Total := by
  refine onTcp_total_of_ends h (ends_ok ?_)
  unfold NetworkStack.tcpListen
  split
  · exact outgoing_of_net h.net
  · exact outgoing_of_net h.net

theorem tcpConnect_total (ip : IpAddr) (port : UInt16) : (st.onTcp (st.tcp.tcpConnect ip port)).Total :=
  onTcp_total_of_ends h (tcpConnect_outgoing (outgoing_of_net h.net) ip port)

theorem tcpSend_total_iff (i : Nat) (data : List UInt8) :
    (st.onTcp (st.tcp.tcpSend i data)).Total ↔ i < MAX_SOCKETS := by
  by_cases hi : i < MAX_SOCKETS
  · simp only [hi, iff_true]
    exact onTcp_total h (tcpSend_outgoing (outgoing_of_net h.net) hi data)
  · simp [hi, Net.Stack.onTcp, NetworkStack.tcpSend, socket_panic hi, Rust.Total]

theorem tcpRecv_total_iff (i cap : Nat) : (st.onTcp (st.tcp.tcpRecv i cap)).Total ↔ i < MAX_SOCKETS := by
  by_cases hi : i < MAX_SOCKETS
  · simp only [hi, iff_true]
    exact onTcp_total h (tcpRecv_outgoing (outgoing_of_net h.net) hi cap)
  · simp [hi, Net.Stack.onTcp, NetworkStack.tcpRecv, socket_panic hi, Rust.Total]

theorem tcpClose_total_iff (i : Nat) : (st.onTcp ((st.tcp.tcpClose i).map (·, ()))).Total ↔ i < MAX_SOCKETS := by
  by_cases hi : i < MAX_SOCKETS
  · simp only [hi, iff_true]
    refine onTcp_total h ?_
    obtain he | ⟨t, ht, hout⟩ := tcpClose_outgoing (outgoing_of_net h.net) hi
    · exact .inl (by rw [he]; rfl)
    · exact .inr ⟨t, by rw [ht]; rfl, hout⟩
  · simp [hi, Net.Stack.onTcp, NetworkStack.tcpClose, socket_panic hi, Rust.Total, Except.map]

theorem tcpAccept_total_iff (i : Nat) : (st.onTcp (st.tcp.tcpAccept i)).Total ↔ i < MAX_SOCKETS := by
  by_cases hi : i < MAX_SOCKETS
  · simp only [hi, iff_true]
    exact onTcp_total_of_ends h (tcpAccept_outgoing (outgoing_of_net h.net) hi)
  · simp [hi, Net.Stack.onTcp, NetworkStack.tcpAccept, socket_panic hi, Rust.Total]

theorem udpSend_total_iff (i : Nat) (data : List UInt8) : (st.udpSend i data).Total ↔ i < MAX_SOCKETS := by
  by_cases hi : i < MAX_SOCKETS
  · simp only [hi, iff_true]
    exact total_of_fst (udpSend_ends h hi data)
  · simp [hi, Net.Stack.udpSend, udpSocket_panic hi, Rust.Total]

theorem udpRecv_total_iff (i cap : Nat) : (st.udpRecv i cap).Total ↔ i < MAX_SOCKETS := by
  by_cases hi : i < MAX_SOCKETS
  · simp only [hi, iff_true]
    exact total_of_fst (udpRecv_ends h hi cap)
  · simp [hi, Net.Stack.udpRecv, udpSocket_panic hi, Rust.Total]

theorem udpConnect_total (i : Nat) (ip : IpAddr) (port : UInt16) :
    Rust.Total ((st.udpConnect i ip port).map (·, ())) := by
  obtain he | ⟨st', hst', _⟩ := udpConnect_ends h i ip port
  · rw [he]
    simp [Except.map]
  · rw [hst']
    simp [Except.map]

end

/-- A network state that frames and calls lead to. -/
def Net.Stack.Reachable (st : Net.Stack) : Prop :=
  ∃ mac ops, (∀ op ∈ ops, StackOp.Valid op) ∧
    (do let st ← Net.Stack.tryInit mac; Runs.runAll Net.Stack.step st ops : Rust Unit Net.Stack) = .ok st

theorem Net.Stack.Reachable.sound {st : Net.Stack} (h : st.Reachable) : Net.Sound st := by
  obtain ⟨mac, ops, hops, hrun⟩ := h
  have hstart : Net.Sound ⟨mac, .default, .new mac, .init, fun _ => none, []⟩ := by
    refine ⟨fun f hf => ?_, rfl⟩
    cases hf
  obtain ⟨st', hrun', hsound⟩ := (dhcpStart_ends hstart).bind fun _ h => runAll_ends h hops
  obtain rfl : st' = st := Except.ok.inj (hrun'.symm.trans hrun)
  exact hsound

section
variable {δ α β : Type} {f : Net.Stack → Rust Unit (Net.Stack × α)} {result : Option α → β} {k : KernelState δ}
  (hsound : ∀ st, k.network = some st → Net.Sound st)
include hsound

theorem network_iff {P : Prop} (hf : ∀ st, Net.Sound st → ((f st).Total ↔ P)) :
    (∃ r, k.withNetwork f result = .ok r) ↔ (k.network.isSome → P) := by
  rw [withNetwork_ok_iff]
  cases hnet : k.network with
  | none => simp
  | some st => simpa using hf st (hsound st hnet)

theorem network_ok (hf : ∀ st, Net.Sound st → (f st).Total) : ∃ r, k.withNetwork f result = .ok r :=
  withNetwork_ok_iff.mpr fun st hst => hf st (hsound st hst)

end

/-! ## Pointers -/

section
variable {memLen ptr : Nat}

theorem le_satAdd (hptr : ptr < 2 ^ 64) (len : Nat) : ptr ≤ satAdd ptr len := by
  unfold satAdd usizeMax
  omega

theorem clipped_in_range (hptr : ptr < 2 ^ 64) {len : Nat} :
    (ptr ≤ min (satAdd ptr len) memLen ∧ min (satAdd ptr len) memLen ≤ memLen) ↔ ptr ≤ memLen := by
  have := le_satAdd hptr len
  omega

theorem whole_in_range (hptr : ptr < 2 ^ 64) {len : Nat} :
    (ptr ≤ satAdd ptr len ∧ satAdd ptr len ≤ memLen) ↔ satAdd ptr len ≤ memLen := by
  have := le_satAdd hptr len
  omega

end

section
variable {ω α : Type} {v₀ v : HostView (Traced ω)} (hsame : SameStack v₀ v) (hlt : v₀.vsp < STACK_DEPTH)
include hsame hlt

theorem safe_push {r : BitVec 64} : HostSafe (pushHost r) (fun _ => Back 1 v₀) v :=
  safe_pushHost (by rw [hsame.2]; exact hlt) hsame.1 hsame.2

theorem safe_service_push {f : ω → Rust Empty (α × ω)} {g : α → BitVec 64} :
    HostSafe (service f >>= fun r => pushHost (g r)) (fun _ => Back 1 v₀) v ↔ ∃ r, f v.world.rest = .ok r := by
  rw [HostSafe, wp_bind]
  refine safe_service.trans ⟨fun ⟨a, w, hf, _⟩ => ⟨(a, w), hf⟩, fun ⟨r, hf⟩ => ⟨r.1, r.2, hf, ?_⟩⟩
  refine safe_push ?_ hlt
  exact hsame

theorem safe_service_receive {f : ω → Rust Empty (Option (List UInt8) × ω)} {memLen ptr cap : Nat}
    {failed : BitVec 64}
    (hcap : ptr + cap ≤ memLen) (hf : ∀ {w data w'}, f w = .ok (some data, w') → data.length ≤ cap) :
    HostSafe (service f >>= fun r => receive memLen ptr failed r >>= pushHost) (fun _ => Back 1 v₀) v ↔
      ∃ r, f v.world.rest = .ok r := by
  rw [HostSafe, wp_bind]
  refine safe_service.trans ⟨fun ⟨a, w, hfw, _⟩ => ⟨(a, w), hfw⟩, fun ⟨r, hfw⟩ => ⟨r.1, r.2, hfw, ?_⟩⟩
  obtain ⟨r, w⟩ := r
  cases r with
  | none =>
    refine safe_push ?_ hlt
    exact hsame
  | some data =>
    have hlen := hf hfw
    rw [receive, wp_bind, wp_bind]
    refine safe_writeMem.mpr ⟨by omega, ?_⟩
    refine safe_push ?_ hlt
    exact hsame

end

/-! ## The functions -/

section
variable {δ : Type} (D : Devices δ) {fuel memLen : Nat}

/-- `Enter` is among the next `n` keys. -/
def EnterWithin (n : Nat) (k : KernelState δ) : Prop := ∃ i < n, k.keys i = .enter

theorem EnterWithin.next {n : Nat} {k : KernelState δ} (h : EnterWithin (n + 1) k) (hk : k.keys 0 ≠ .enter) :
    EnterWithin n k.nextKey.2 := by
  obtain ⟨i, hi, hkey⟩ := h
  cases i with
  | zero => exact absurd hkey hk
  | succ i => exact ⟨i, by omega, hkey⟩

def afterKey (v : HostView (Traced (KernelState δ))) : HostView (Traced (KernelState δ)) :=
  { v with world := { v.world with rest := v.world.rest.nextKey.2 } }

theorem safe_nextKey {v : HostView (Traced (KernelState δ))} {Q : Key → HostView (Traced (KernelState δ)) → Prop} :
    HostSafe (service (kernelServices D).nextKey) Q v ↔ Q (v.world.rest.keys 0) (afterKey v) := Iff.rfl

theorem readChar_ends : ∀ {fuel : Nat} {v₀ v : HostView (Traced (KernelState δ))}, EnterWithin fuel v.world.rest →
    SameStack v₀ v → HostSafe (hostReadChar.loop (kernelServices D) fuel) (fun _ => SameStack v₀) v
  | 0, _, _, h, _ => by
    obtain ⟨i, hi, _⟩ := h
    omega
  | fuel + 1, v₀, v, h, hv => by
    rw [hostReadChar.loop, HostSafe, wp_bind]
    refine (safe_nextKey D).mpr ?_
    cases hkey : v.world.rest.keys 0 with
    | char c => exact hv
    | enter => exact hv
    | backspace => exact readChar_ends (h.next (by rw [hkey]; intro hc; cases hc)) hv
    | other => exact readChar_ends (h.next (by rw [hkey]; intro hc; cases hc)) hv

end

/-! ## What a call prints -/

section
variable {δ α : Type} (D : Devices δ) {fuel memLen : Nat} {v₀ v : HostView (Traced (KernelState δ))}

def withConsole (v : HostView (Traced (KernelState δ))) (c : Console) : HostView (Traced (KernelState δ)) :=
  { v with world := { v.world with rest := { v.world.rest with console := c } } }

/-- The console takes the texts, one after the other. -/
def Says (S : Strings) (c : Console) (texts : List (List UInt8)) : Prop :=
  Guarded (Console.print S) (Console.TextFits S) c texts

/-- The computation ends, with the value stack as it was, exactly if the console takes the texts. -/
def Speaks (v₀ v : HostView (Traced (KernelState δ))) (m : Host (KernelState δ) α)
    (texts : List (List UInt8)) : Prop :=
  ∀ Q : α → HostView (Traced (KernelState δ)) → Prop, (∀ a v', SameStack v₀ v' → Q a v') →
    (HostSafe m Q v ↔ Says D.strings v.world.rest.console texts)

variable {D}

theorem safe_perform {f : Console → Rust Empty Console} {Q : Unit → HostView (Traced (KernelState δ)) → Prop} :
    HostSafe (perform (KernelState.onConsole f)) Q v ↔ ∃ c, f v.world.rest.console = .ok c ∧
    Q () (withConsole v c) := by
  refine safe_service.trans ?_
  unfold KernelState.onConsole
  cases hf : f v.world.rest.console with
  | ok c =>
    constructor
    · rintro ⟨a, w, hw, hq⟩
      cases hw
      exact ⟨c, rfl, hq⟩
    · rintro ⟨c', hc, hq⟩
      cases hc
      exact ⟨(), _, rfl, hq⟩
  | error e =>
    constructor
    · rintro ⟨a, w, hw, -⟩
      cases hw
    · rintro ⟨c, hc, -⟩
      cases hc

theorem speaks_pure (hv : SameStack v₀ v) (a : α) : Speaks D v₀ v (pure a) [] :=
  fun _ hQ => iff_of_true (hQ a v hv) trivial

theorem speaks_print {β : Type} {text : List UInt8} {texts : List (List UInt8)} {m : Host (KernelState δ) β}
    (hsound : v.world.rest.console.Sound) (hm : ∀ c, c.Sound → Speaks D v₀ (withConsole v c) m texts) :
    Speaks D v₀ v (perform ((kernelServices D).print text) >>= fun _ => m) (text :: texts) := by
  intro Q hQ
  rw [HostSafe, wp_bind]
  refine (safe_perform (f := fun c => c.print D.strings text)).trans ?_
  constructor
  · rintro ⟨c, hc, hrest⟩
    have hfit := Console.print_fits hsound hc
    refine ⟨hfit, fun c' hc' => ?_⟩
    obtain ⟨c₁, hc₁, hs⟩ := Console.print_ok hsound hfit
    cases hc₁.symm.trans hc
    cases hc'.symm.trans hc
    exact (hm c hs Q hQ).mp hrest
  · rintro ⟨hfit, hrest⟩
    obtain ⟨c, hc, hs⟩ := Console.print_ok hsound hfit
    exact ⟨c, hc, (hm c hs Q hQ).mpr (hrest c hc)⟩

theorem speaks_last {text : List UInt8} (hv : SameStack v₀ v) (hsound : v.world.rest.console.Sound) :
    Speaks D v₀ v (perform ((kernelServices D).print text)) [text] := by
  have h : Speaks D v₀ v (perform ((kernelServices D).print text) >>= fun u => pure u) [text] :=
    speaks_print hsound fun c _ => speaks_pure (v := withConsole v c) hv ()
  rwa [bind_pure] at h

def lines (line : List UInt8) : List (List UInt8) := [line.dropLast, ascii "\n"]

theorem speaks_printLine {line : List UInt8} (hv : SameStack v₀ v) (hsound : v.world.rest.console.Sound) :
    Speaks D v₀ v (printLine (kernelServices D) line) (lines line) :=
  speaks_print hsound fun c hs => speaks_last (v := withConsole v c) hv hs

/-- What `read_line` echoes of the keys, when the line so far has `len` bytes. -/
def echoed (cap : Nat) : Nat → (Nat → Key) → Nat → List (List UInt8)
  | 0, _, _ => []
  | fuel + 1, keys, len =>
    match keys 0 with
    | .enter => [ascii "\n"]
    | .backspace =>
      if 0 < len then [0x08, 0x20, 0x08] :: echoed cap fuel (fun i => keys (i + 1)) (len - 1)
      else echoed cap fuel (fun i => keys (i + 1)) len
    | .char c =>
      if c < 128 ∧ len < cap then [UInt8.ofNat c] :: echoed cap fuel (fun i => keys (i + 1)) (len + 1)
      else echoed cap fuel (fun i => keys (i + 1)) len
    | .other => echoed cap fuel (fun i => keys (i + 1)) len

theorem speaks_readLine {ptr cap : Nat} (hcap : ptr + cap ≤ memLen) :
    ∀ {fuel len : Nat} {v : HostView (Traced (KernelState δ))},
    EnterWithin fuel v.world.rest → SameStack v₀ v → v.world.rest.console.Sound →
    Speaks D v₀ v (hostReadLine.loop (kernelServices D) memLen ptr cap fuel len)
    (echoed cap fuel v.world.rest.keys len)
  | 0, _, _, h, _, _ => by
    obtain ⟨i, hi, _⟩ := h
    omega
  | fuel + 1, len, v, h, hv, hs => by
    intro Q hQ
    rw [hostReadLine.loop, HostSafe, wp_bind]
    refine (safe_nextKey D).trans ?_
    unfold echoed
    have hrest : v.world.rest.keys 0 ≠ .enter → ∀ (v' : HostView (Traced (KernelState δ))) (len' : Nat),
        v'.world.rest.keys = (fun i => v.world.rest.keys (i + 1)) → SameStack v₀ v' → v'.world.rest.console.Sound →
        Speaks D v₀ v' (hostReadLine.loop (kernelServices D) memLen ptr cap fuel len')
          (echoed cap fuel (fun i => v.world.rest.keys (i + 1)) len') := by
      intro hkey v' len' hkeys hv' hs'
      have hin : EnterWithin fuel v'.world.rest := by
        unfold EnterWithin
        rw [hkeys]
        exact h.next hkey
      rw [← hkeys]
      exact speaks_readLine hcap hin hv' hs'
    cases hkey : v.world.rest.keys 0 with
    | enter =>
      have hsay : Speaks D v₀ (afterKey v) (perform ((kernelServices D).print (ascii "\n")) >>= fun _ =>
          pure len) [ascii "\n"] :=
        speaks_print hs fun c _ => speaks_pure (v := withConsole (afterKey v) c) hv len
      exact hsay Q hQ
    | backspace =>
      have hrest := hrest (by rw [hkey]; intro hc; cases hc)
      dsimp only
      by_cases hlen : 0 < len
      · rw [if_pos hlen, if_pos hlen]
        have hsay : Speaks D v₀ (afterKey v) (perform ((kernelServices D).print [0x08, 0x20, 0x08]) >>= _) _ :=
          speaks_print hs fun c hc => hrest (withConsole (afterKey v) c) (len - 1) rfl hv hc
        exact hsay Q hQ
      · rw [if_neg hlen, if_neg hlen]
        exact hrest (afterKey v) len rfl hv hs Q hQ
    | char c =>
      have hrest := hrest (by rw [hkey]; intro hc; cases hc)
      dsimp only
      by_cases hc : c < 128 ∧ len < cap
      · rw [if_pos hc, if_pos hc, wp_bind]
        refine safe_writeMem.trans ?_
        have hin : ptr + len + [UInt8.ofNat c].length ≤ memLen := by
          rw [List.length_singleton]
          omega
        rw [and_iff_right hin]
        have hsay : Speaks D v₀ { afterKey v with
            mem := blit (afterKey v).mem (ptr + len) [UInt8.ofNat c]
            world := { (afterKey v).world with
              touched := (afterKey v).world.touched ++ [(ptr + len, ptr + len + [UInt8.ofNat c].length)] } }
            (perform ((kernelServices D).print [UInt8.ofNat c]) >>= _) _ :=
          speaks_print hs fun c' hc' => hrest (withConsole _ c') (len + 1) rfl hv hc'
        exact hsay Q hQ
      · rw [if_neg hc, if_neg hc]
        exact hrest (afterKey v) len rfl hv hs Q hQ
    | other => exact hrest (by rw [hkey]; intro hc; cases hc) (afterKey v) len rfl hv hs Q hQ

end

section
variable {ω : Type} (S : Services ω) {memLen : Nat} (hfit : memLen < usizeMax)
include hfit

theorem still_fsRead {namePtr nameLen bufPtr bufCap : Nat} (hname : namePtr < 2 ^ 64) :
    HostStill (fsRead S memLen namePtr nameLen bufPtr bufCap) := by
  refine still_ite (fun _ => still_pure _) fun hin => ?_
  refine still_bind (still_readMem ⟨le_satAdd hname _, by omega⟩) fun name => ?_
  refine still_ite (fun _ => still_pure _) fun _ => still_bind (still_query _) fun file => ?_
  cases file with
  | none => exact still_pure _
  | some data =>
    refine still_ite (fun _ => still_pure _) fun hbuf => ?_
    have hsum := satAdd_of_le (a := bufPtr) (b := bufCap) hfit (by omega)
    exact still_bind (still_writeMem (by omega)) fun _ => still_pure _

theorem still_fsWrite {namePtr nameLen bufPtr bufLen : Nat}
    (hwrite : ∀ name data w, ∃ r, S.writeFile name data w = .ok r) :
    HostStill (fsWrite S memLen namePtr nameLen bufPtr bufLen) := by
  refine still_ite (fun _ => still_pure _) fun hin => ?_
  have hname := satAdd_of_le (a := namePtr) (b := nameLen) hfit (by omega)
  have hbuf := satAdd_of_le (a := bufPtr) (b := bufLen) hfit (by omega)
  refine still_bind (still_readMem (by omega)) fun name => ?_
  refine still_ite (fun _ => still_pure _) fun _ => ?_
  refine still_bind (still_readMem (by omega)) fun data => ?_
  exact still_bind (still_service fun w => hwrite name data w) fun ok => still_ite (fun _ => still_pure _)
    fun _ => still_pure _

omit hfit in
theorem still_fsSize {namePtr nameLen : Nat} (hname : namePtr < 2 ^ 64) :
    HostStill (fsSize S memLen namePtr nameLen) := by
  refine still_ite (fun _ => still_pure _) fun hin => ?_
  refine still_bind (still_readMem ⟨le_satAdd hname _, by omega⟩) fun name => ?_
  refine still_ite (fun _ => still_pure _) fun _ => still_bind (still_query _) fun file => ?_
  cases file with
  | none => exact still_pure _
  | some data => exact still_pure _

theorem still_argsGet {ptr cap : Nat} : HostStill (argsGet S memLen ptr cap) := by
  refine still_bind (still_query _) fun args => ?_
  refine still_ite (fun _ => still_pure _) fun hin => ?_
  have hsum := satAdd_of_le (a := ptr) (b := args.length) hfit (by omega)
  exact still_bind (still_writeMem (by omega)) fun _ => still_pure _

end

end WasmOs
