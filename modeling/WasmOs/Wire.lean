import WasmOs.Fault
import WasmOs.Tcp

/-!
# Bytes on the wire

Slices, stores and checked additions as the packet code uses them, and numbers and addresses in network
order. Every access that the code checks at run time can panic here.
-/

namespace WasmOs

section
variable {ε α : Type}

/-- `&bytes[lo..hi]` -/
def sliceRange (bytes : List α) (lo hi : Nat) : Rust ε (List α) :=
  if lo ≤ hi ∧ hi ≤ bytes.length then .ok ((bytes.take hi).drop lo) else .error .panic

/-- `bytes[i] = v` -/
def setAt (bytes : List α) (i : Nat) (v : α) : Rust ε (List α) :=
  if i < bytes.length then .ok (bytes.set i v) else .error .panic

/-- `buf[lo..hi].copy_from_slice(src)` -/
def copyInto (buf : List α) (lo hi : Nat) (src : List α) : Rust ε (List α) :=
  if lo ≤ hi ∧ hi ≤ buf.length ∧ src.length = hi - lo then .ok (buf.take lo ++ src ++ buf.drop hi)
  else .error .panic

/-- `a + b` on `u16`, with the overflow check. -/
def u16Add (a b : Nat) : Rust ε Nat := if a + b < 2 ^ 16 then .ok (a + b) else .error .panic

/-- `a + b` on `u32`, with the overflow check. -/
def u32Add (a b : Nat) : Rust ε Nat := if a + b < 2 ^ 32 then .ok (a + b) else .error .panic

theorem sliceRange_of_le {bytes : List α} {lo hi : Nat} (h : lo ≤ hi ∧ hi ≤ bytes.length) :
    (sliceRange bytes lo hi : Rust ε (List α)) = .ok ((bytes.take hi).drop lo) := if_pos h

theorem setAt_of_lt {bytes : List α} {i : Nat} (h : i < bytes.length) (v : α) :
    (setAt bytes i v : Rust ε (List α)) = .ok (bytes.set i v) := if_pos h

theorem copyInto_of_le {buf src : List α} {lo hi : Nat} (h : lo ≤ hi ∧ hi ≤ buf.length ∧ src.length = hi - lo) :
    (copyInto buf lo hi src : Rust ε (List α)) = .ok (buf.take lo ++ src ++ buf.drop hi) := if_pos h

theorem u16Add_of_lt {a b : Nat} (h : a + b < 2 ^ 16) : (u16Add a b : Rust ε Nat) = .ok (a + b) := if_pos h

theorem u32Add_of_lt {a b : Nat} (h : a + b < 2 ^ 32) : (u32Add a b : Rust ε Nat) = .ok (a + b) := if_pos h

end

/-! ## Network order -/

def be16 (v : UInt16) : List UInt8 := [UInt8.ofNat (v.toNat / 256), v.toUInt8]

def be32 (v : UInt32) : List UInt8 :=
  [UInt8.ofNat (v.toNat / 16777216), UInt8.ofNat (v.toNat / 65536), UInt8.ofNat (v.toNat / 256), v.toUInt8]

def ofBe16 (a b : UInt8) : UInt16 := UInt16.ofNat (a.toNat * 256 + b.toNat)

def ofBe32 (a b c d : UInt8) : UInt32 :=
  UInt32.ofNat (((a.toNat * 256 + b.toNat) * 256 + c.toNat) * 256 + d.toNat)

/-- `u16::from_be_bytes([bytes[i], bytes[i + 1]])` -/
def u16At (bytes : List UInt8) (i : Nat) : Rust Unit UInt16 := do
  let a ← index bytes i
  let b ← index bytes (i + 1)
  .ok (ofBe16 a b)

/-- `u32::from_be_bytes([bytes[i], .., bytes[i + 3]])` -/
def u32At (bytes : List UInt8) (i : Nat) : Rust Unit UInt32 := do
  let a ← index bytes i
  let b ← index bytes (i + 1)
  let c ← index bytes (i + 2)
  let d ← index bytes (i + 3)
  .ok (ofBe32 a b c d)

@[simp] theorem ofBe16_be16 (v : UInt16) : ofBe16 (UInt8.ofNat (v.toNat / 256)) v.toUInt8 = v := by
  apply UInt16.toNat_inj.mp
  have := v.toNat_lt
  simp only [ofBe16, UInt8.toNat_ofNat', UInt16.toNat_ofNat', UInt16.toNat_toUInt8]
  omega

@[simp] theorem ofBe32_be32 (v : UInt32) :
    ofBe32 (UInt8.ofNat (v.toNat / 16777216)) (UInt8.ofNat (v.toNat / 65536)) (UInt8.ofNat (v.toNat / 256))
      v.toUInt8 = v := by
  apply UInt32.toNat_inj.mp
  have := v.toNat_lt
  simp only [ofBe32, UInt8.toNat_ofNat', UInt32.toNat_ofNat', UInt32.toNat_toUInt8]
  omega

/-! ## Addresses -/

namespace Net

def IpAddr.bytes (ip : IpAddr) : List UInt8 := [ip.a, ip.b, ip.c, ip.d]

def Mac.bytes (mac : Mac) : List UInt8 := [mac.a, mac.b, mac.c, mac.d, mac.e, mac.f]

/-- `let mut ip = [0u8; 4]; ip.copy_from_slice(bytes)` -/
def IpAddr.ofSlice : List UInt8 → Rust Unit IpAddr
  | [a, b, c, d] => .ok ⟨a, b, c, d⟩
  | _ => .error .panic

/-- `let mut mac = [0u8; 6]; mac.copy_from_slice(bytes)` -/
def Mac.ofSlice : List UInt8 → Rust Unit Mac
  | [a, b, c, d, e, f] => .ok ⟨a, b, c, d, e, f⟩
  | _ => .error .panic

theorem IpAddr.ofSlice_succeeds : ∀ {bytes : List UInt8}, bytes.length = 4 → (IpAddr.ofSlice bytes).Succeeds
  | [_, _, _, _], _ => ⟨_, rfl⟩

theorem Mac.ofSlice_succeeds : ∀ {bytes : List UInt8}, bytes.length = 6 → (Mac.ofSlice bytes).Succeeds
  | [_, _, _, _, _, _], _ => ⟨_, rfl⟩

end Net

end WasmOs
