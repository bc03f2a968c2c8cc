import WasmOs.DhcpRun

/-!
# The options of a DHCP reply

The option area is a list of pad bytes and of options with their lengths, ended by an end tag or by the end
of the packet. Of each option asked for, the walk finds the last one that is long enough.
-/

namespace WasmOs.Net

/-- An option: its length is one byte, and its tag is neither that of a pad byte nor the end tag. -/
structure DhcpOption where
  tag : UInt8
  value : List UInt8
  not_pad : tag ≠ 0
  not_end : tag ≠ 255
  fits : value.length < 256

inductive Entry where
  | pad
  | option (opt : DhcpOption)

def Entry.bytes : Entry → List UInt8
  | .pad => [0]
  | .option opt => opt.tag :: UInt8.ofNat opt.value.length :: opt.value

def Entry.valueFor (tag : UInt8) (n : Nat) : Entry → Option (List UInt8)
  | .pad => none
  | .option opt => if opt.tag = tag ∧ n ≤ opt.value.length then some opt.value else none

def lastValue (tag : UInt8) (n : Nat) (es : List Entry) : Option (List UInt8) :=
  (es.filterMap (Entry.valueFor tag n)).getLast?

/-- Behind the entries there is nothing, or an end tag and anything at all. -/
def Ended (tail : List UInt8) : Prop := tail = [] ∨ tail.head? = some 255

def addrOf : List UInt8 → IpAddr
  | a :: b :: c :: d :: _ => ⟨a, b, c, d⟩
  | _ => .default

def secsOf : List UInt8 → UInt32
  | a :: b :: c :: d :: _ => ofBe32 a b c d
  | _ => 0

/-- What entries say, and `o` where they say nothing. -/
def DhcpOptions.update (o : DhcpOptions) (es : List Entry) : DhcpOptions where
  msgType := ((lastValue 53 1 es).map (·.headD 0)).getD o.msgType
  serverId := ((lastValue 54 4 es).map addrOf).getD o.serverId
  subnetMask := ((lastValue 1 4 es).map addrOf).getD o.subnetMask
  gateway := ((lastValue 3 4 es).map addrOf).getD o.gateway
  leaseSecs := ((lastValue 51 4 es).map secsOf).getD o.leaseSecs

/-- What `handle_packet` starts from. -/
def DhcpOptions.none : DhcpOptions := ⟨0, .default, .default, .default, 86400⟩

theorem lastValue_cons (tag : UInt8) (n : Nat) (e : Entry) (es : List Entry) :
    lastValue tag n (e :: es) = (lastValue tag n es).or (e.valueFor tag n) := by
  unfold lastValue
  rw [List.filterMap_cons]
  cases e.valueFor tag n with
  | none => rw [Option.or_none]
  | some v =>
    dsimp only
    rw [List.getLast?_cons]
    cases (es.filterMap (Entry.valueFor tag n)).getLast? with
    | none => rfl
    | some w => rfl

theorem lastValue_singleton (tag : UInt8) (n : Nat) (e : Entry) : lastValue tag n [e] = e.valueFor tag n := by
  rw [lastValue_cons]
  rfl

theorem getD_map_or {α β : Type} (f : α → β) (x y : Option α) (d : β) :
    ((x.or y).map f).getD d = (x.map f).getD ((y.map f).getD d) := by
  cases x with
  | none => rfl
  | some a => rfl

theorem DhcpOptions.update_cons (o : DhcpOptions) (e : Entry) (es : List Entry) :
    o.update (e :: es) = (o.update [e]).update es := by
  have hcons : ∀ tag n, lastValue tag n (e :: es) = (lastValue tag n es).or (lastValue tag n [e]) := by
    intro tag n
    rw [lastValue_cons, lastValue_singleton]
  unfold DhcpOptions.update
  simp only [hcons, getD_map_or]

/-! ## The walk -/

theorem addrOf_ofSlice : ∀ {v : List UInt8}, 4 ≤ v.length → IpAddr.ofSlice ((v.take 4).drop 0) = .ok (addrOf v)
  | _ :: _ :: _ :: _ :: _, _ => rfl

theorem secsOf_u32At : ∀ {v : List UInt8}, 4 ≤ v.length → u32At v 0 = .ok (secsOf v)
  | _ :: _ :: _ :: _ :: _, _ => rfl

theorem headD_index : ∀ {v : List UInt8}, 1 ≤ v.length → (index v 0 : Rust Unit UInt8) = .ok (v.headD 0)
  | _ :: _, _ => rfl

theorem DhcpOptions.read_eq (o : DhcpOptions) (opt : DhcpOption) :
    o.read opt.tag opt.value = .ok (o.update [.option opt]) := by
  unfold DhcpOptions.read DhcpOptions.update
  simp only [lastValue_singleton, Entry.valueFor]
  by_cases h53 : opt.tag = 53 ∧ 1 ≤ opt.value.length
  · rw [if_pos h53, headD_index h53.2, bind_ok]
    simp [h53]
  rw [if_neg h53]
  by_cases h54 : opt.tag = 54 ∧ 4 ≤ opt.value.length
  · rw [if_pos h54, sliceRange_of_le ⟨Nat.zero_le _, h54.2⟩, bind_ok, addrOf_ofSlice h54.2, bind_ok]
    simp [h54]
  rw [if_neg h54]
  by_cases h1 : opt.tag = 1 ∧ 4 ≤ opt.value.length
  · rw [if_pos h1, sliceRange_of_le ⟨Nat.zero_le _, h1.2⟩, bind_ok, addrOf_ofSlice h1.2, bind_ok]
    simp [h1]
  rw [if_neg h1]
  by_cases h3 : opt.tag = 3 ∧ 4 ≤ opt.value.length
  · rw [if_pos h3, sliceRange_of_le ⟨Nat.zero_le _, h3.2⟩, bind_ok, addrOf_ofSlice h3.2, bind_ok]
    simp [h3]
  rw [if_neg h3]
  by_cases h51 : opt.tag = 51 ∧ 4 ≤ opt.value.length
  · rw [if_pos h51, secsOf_u32At h51.2, bind_ok]
    simp [h51]
  rw [if_neg h51, if_neg h53, if_neg h54, if_neg h1, if_neg h3, if_neg h51]
  rfl

theorem index_middle {α : Type} (pre rest : List α) (a : α) :
    (index (pre ++ a :: rest) pre.length : Rust Unit α) = .ok a := by
  rw [index_eq_ok, List.getElem?_append_right (Nat.le_refl _), Nat.sub_self]
  rfl

theorem sliceRange_middle {α : Type} (pre val rest : List α) :
    (sliceRange (pre ++ (val ++ rest)) pre.length (pre.length + val.length) : Rust Unit (List α)) = .ok val := by
  rw [sliceRange_of_le ⟨Nat.le_add_right .., by simp⟩, ← List.append_assoc, ← List.length_append,
    List.take_left, List.drop_left]

theorem walkOptions_pad (pre rest : List UInt8) (fuel : Nat) (o : DhcpOptions) :
    walkOptions (pre ++ 0 :: rest) (fuel + 1) pre.length o = walkOptions (pre ++ 0 :: rest) fuel
    (pre.length + 1) o := by
  rw [walkOptions, if_neg (by simp), index_middle, bind_ok, if_neg (by decide), if_pos rfl]

theorem walkOptions_option (pre rest : List UInt8) (fuel : Nat) (o : DhcpOptions) (opt : DhcpOption) :
    walkOptions (pre ++ (Entry.bytes (.option opt) ++ rest)) (fuel + 1) pre.length o =
      walkOptions (pre ++ (Entry.bytes (.option opt) ++ rest)) fuel (pre.length + 2 + opt.value.length)
      (o.update [.option opt]) := by
  have hlen : (UInt8.ofNat opt.value.length).toNat = opt.value.length := UInt8.toNat_ofNat_of_lt opt.fits
  have htag := index_middle pre (UInt8.ofNat opt.value.length :: (opt.value ++ rest)) opt.tag
  have hlenAt := index_middle (pre ++ [opt.tag]) (opt.value ++ rest) (UInt8.ofNat opt.value.length)
  have hval := sliceRange_middle (pre ++ [opt.tag, UInt8.ofNat opt.value.length]) opt.value rest
  rw [List.append_assoc, List.length_append] at hlenAt hval
  have hsize : (pre ++ (Entry.bytes (.option opt) ++ rest)).length = pre.length + 2 + opt.value.length +
      rest.length := by
    simp only [Entry.bytes, List.length_append, List.length_cons]
    omega
  rw [walkOptions, if_neg (by omega),
    show index (pre ++ (Entry.bytes (.option opt) ++ rest)) pre.length = .ok opt.tag from htag, bind_ok,
    if_neg opt.not_end, if_neg opt.not_pad, if_neg (by omega),
    show index (pre ++ (Entry.bytes (.option opt) ++ rest)) (pre.length + 1) =
      .ok (UInt8.ofNat opt.value.length) from hlenAt, bind_ok, hlen,
    if_neg (by omega),
    show sliceRange (pre ++ (Entry.bytes (.option opt) ++ rest)) (pre.length + 2)
      (pre.length + 2 + opt.value.length) = .ok opt.value from hval,
    bind_ok, DhcpOptions.read_eq, bind_ok]

theorem walkOptions_entries {tail : List UInt8} (htail : Ended tail) (es : List Entry) (pre : List UInt8)
    (fuel : Nat) (o : DhcpOptions) (hfuel : (es.flatMap Entry.bytes).length < fuel) :
    walkOptions (pre ++ (es.flatMap Entry.bytes ++ tail)) fuel pre.length o = .ok (o.update es) := by
  induction es generalizing pre fuel o with
  | nil =>
    cases fuel with
    | zero => cases hfuel
    | succ fuel =>
      rw [walkOptions, List.flatMap_nil, List.nil_append]
      rcases htail with rfl | hend
      · rw [if_pos (by simp)]
        rfl
      · cases tail with
        | nil => cases hend
        | cons b tail =>
          cases hend
          rw [if_neg (by simp), index_middle, bind_ok, if_pos rfl]
          rfl
  | cons e es ih =>
    rw [List.flatMap_cons, List.length_append] at hfuel
    rw [DhcpOptions.update_cons, List.flatMap_cons, List.append_assoc]
    cases fuel with
    | zero => cases hfuel
    | succ fuel =>
      cases e with
      | pad =>
        have hnext :=
          ih (pre ++ [0]) fuel (o.update [.pad])
            (by simp only [Entry.bytes, List.length_singleton] at hfuel; omega)
        rw [List.append_assoc, List.length_append] at hnext
        exact (walkOptions_pad pre _ fuel o).trans hnext
      | option opt =>
        have hnext := ih (pre ++ Entry.bytes (.option opt)) fuel (o.update [.option opt])
          (by simp only [Entry.bytes, List.length_cons] at hfuel; omega)
        rw [List.append_assoc, List.length_append] at hnext
        rw [walkOptions_option, Nat.add_assoc, Nat.add_comm 2]
        exact hnext

/-- Every walk ends inside the packet, and for a list of entries it finds what they say. -/
theorem dhcp_options_walk (c : DhcpClient) (data : List UInt8) : (∃ r, c.handlePacket data = .ok r) ∧
    (∀ i o, i ≤ data.length → ∃ o', walkOptions data (data.length + 1) i o = .ok o') ∧
    ∀ header es tail, data = header ++ (es.flatMap Entry.bytes ++ tail) → header.length = 240 → Ended tail →
      walkOptions data (data.length + 1) 240 .none = .ok (DhcpOptions.none.update es) ∧
      c.handlePacket data = .ok (if IsReply c.xid data then c.act (yiaddrOf data) (DhcpOptions.none.update es)
        else (c, none)) := by
  refine ⟨⟨_, handlePacket_eq c data⟩, fun i o hi => ?_, fun header es tail hdata hheader htail => ?_⟩
  · obtain ⟨o', ho', -⟩ := walkOptions_ends data (data.length + 1) i o hi (by omega)
    exact ⟨o', ho'⟩
  · have hwalk : walkOptions data (data.length + 1) 240 .none = .ok (DhcpOptions.none.update es) := by
      have hlen : (es.flatMap Entry.bytes).length < data.length + 1 := by
        rw [hdata, List.length_append, List.length_append]
        omega
      have h := walkOptions_entries htail es header (data.length + 1) .none hlen
      rw [← hdata, hheader] at h
      exact h
    have hopt : optionsOf data = DhcpOptions.none.update es := by
      unfold optionsOf
      dsimp only
      rw [show walkOptions data (data.length + 1) 240 ⟨0, .default, .default, .default, 86400⟩ = _ from hwalk]
    refine ⟨hwalk, ?_⟩
    rw [handlePacket_eq, hopt]

end WasmOs.Net
