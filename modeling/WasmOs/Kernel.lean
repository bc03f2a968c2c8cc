import WasmOs.Console
import WasmOs.FileTable
import WasmOs.Host
import WasmOs.Stack

/-!
# The kernel behind the host functions

The services of the host functions over the console, the file table and the network stack of the kernel. The
timer, the arguments of the program and the FAT volume are `Devices`; the keyboard is the sequence of the keys
that are going to be pressed.
-/

namespace WasmOs

namespace Net

/-- `IpAddr::from_u32` -/
def IpAddr.ofU32 (v : BitVec 32) : IpAddr :=
  ⟨.ofNat v.toNat, .ofNat (v.toNat / 256), .ofNat (v.toNat / 65536), .ofNat (v.toNat / 16777216)⟩

def IpAddr.toU32 (ip : IpAddr) : BitVec 32 :=
  BitVec.ofNat 32 (ip.a.toNat + 256 * ip.b.toNat + 65536 * ip.c.toNat + 16777216 * ip.d.toNat)

namespace Stack

/-- A call on the TCP side; what it hands down goes out. -/
def onTcp {α : Type} (st : Stack) (call : Rust Unit (NetworkStack × α)) : Rust Unit (Stack × α) := do
  let (tcp, a) ← call
  let st ← st.withTcp tcp
  .ok (st, a)

def tcpStatus (st : Stack) (i : Nat) : Nat :=
  match if i < MAX_SOCKETS then st.tcp.tcpSockets i else none with
  | none => 0
  | some s =>
    match s.state with
    | .closed => 0
    | .listen => 1
    | .synSent | .synRecv => 2
    | .established => 3
    | _ => 4

end Stack

end Net

open Net

structure Devices (δ : Type) where
  strings : Strings
  slotMem : Nat
  uptimeMs : δ → Int
  opcodeCount : δ → BitVec 64
  sleepMs : Nat → δ → δ
  args : δ → List UInt8
  /-- The work of the `fatfs` crate. A flush that fails is ignored. -/
  fatWriteFile : List UInt8 → List UInt8 → δ → δ

def WRITE_SLOTS : Nat := 16

def WRITE_SLOT_CAP : Nat := 4096

structure KernelState (δ : Type) where
  keys : Nat → Key
  files : Fs.FileTable
  writePoolNext : Nat
  network : Option Net.Stack
  console : Console
  devices : δ

namespace KernelState

section
variable {δ α β : Type}

def nextKey (k : KernelState δ) : Key × KernelState δ := (k.keys 0, { k with keys := fun i => k.keys (i + 1) })

def onDevices (f : δ → δ) (k : KernelState δ) : KernelState δ := { k with devices := f k.devices }

def onConsole (f : Console → Rust Empty Console) (k : KernelState δ) : Rust Empty (KernelState δ) := do
  let console ← f k.console
  .ok { k with console }

/-- `alloc_write_buf` and, if there is a slot, `remove_file`, `register_file` and `fat_write_file`. -/
def writeFile (D : Devices δ) (name data : List UInt8) (k : KernelState δ) : Bool × KernelState δ :=
  if WRITE_SLOT_CAP < data.length then (false, k)
  else if WRITE_SLOTS ≤ k.writePoolNext then (false, k)
  else
    (true, { k with
      writePoolNext := k.writePoolNext + 1
      files := (k.files.removeFile name).1.registerFile name data
      devices := D.fatWriteFile name data k.devices })

/-- `with_network`, with what becomes of no network and of `Err(())`, which leaves the stack as it is. -/
def withNetwork (f : Net.Stack → Rust Unit (Net.Stack × α)) (result : Option α → β) (k : KernelState δ) :
    Rust Empty (β × KernelState δ) :=
  match k.network with
  | none => .ok (result none, k)
  | some st =>
    match f st with
    | .ok (st, a) => .ok (result (some a), { k with network := some st })
    | .error (.err _) => .ok (result none, k)
    | .error .panic => .error .panic
    | .error .hang => .error .hang

/-- What a receiving call puts into the buffer fits it. -/
theorem withNetwork_le {f : Net.Stack → Rust Unit (Net.Stack × List UInt8)} {cap : Nat} {k k' : KernelState δ}
    {data : List UInt8} (hf : ∀ st st' bytes, f st = .ok (st', bytes) → bytes.length ≤ cap)
    (h : withNetwork f id k = .ok (some data, k')) : data.length ≤ cap := by
  unfold withNetwork at h
  cases hnet : k.network with
  | none => simp [hnet] at h
  | some st =>
    rw [hnet] at h
    cases hst : f st with
    | ok p =>
      obtain ⟨st', bytes⟩ := p
      simp only [hst, id] at h
      cases h
      exact hf st st' data hst
    | error e => cases e <;> simp [hst] at h

end

end KernelState

theorem Net.Stack.tcpRecv_le {st st' : Net.Stack} {i cap : Nat} {bytes : List UInt8}
    (h : st.onTcp (st.tcp.tcpRecv i cap) = .ok (st', bytes)) : bytes.length ≤ cap := by
  obtain ⟨⟨tcp, a⟩, hcall, h⟩ := bind_eq_ok.mp h
  obtain ⟨st₂, _, h⟩ := bind_eq_ok.mp h
  cases h
  obtain ⟨o, _, hcall⟩ := bind_eq_ok.mp hcall
  cases o with
  | none => cases hcall
  | some s =>
    simp only [TcpSocket.recv] at hcall
    split at hcall
    · cases hcall
    · rename_i hrecv
      split at hrecv
      · cases hrecv
      · cases hrecv
        cases hcall
        rw [slice_length]
        exact Nat.min_le_right _ _

theorem Net.Stack.udpRecv_le {st st' : Net.Stack} {i cap : Nat} {bytes : List UInt8}
    (h : st.udpRecv i cap = .ok (st', bytes)) : bytes.length ≤ cap := by
  obtain ⟨o, _, h⟩ := bind_eq_ok.mp h
  cases o with
  | none => cases h
  | some s =>
    simp only [UdpSocket.recv] at h
    split at h
    · cases h
    · rename_i hrecv
      split at hrecv
      · cases hrecv
      · cases hrecv
        cases h
        rw [slice_length]
        exact Nat.min_le_right _ _

section
variable {δ : Type} (D : Devices δ)

open KernelState

def kernelServices : Services (KernelState δ) where
  print bytes := onConsole fun c => c.print D.strings bytes
  nextKey k := .ok k.nextKey
  uptimeMs k := D.uptimeMs k.devices
  opcodeCount k := D.opcodeCount k.devices
  sleepMs ms := onDevices (D.sleepMs ms)
  findFile k name := k.files.findFile name
  writeFile name data k := .ok (k.writeFile D name data)
  args k := D.args k.devices
  slotMem := D.slotMem
  setPixel x y rgb := onConsole fun c => c.setPixel x y rgb
  blitRgb32 pixels width height := onConsole fun c => c.blitRgb32 pixels width height
  tcpListen port := withNetwork (fun st => st.onTcp (.ok (st.tcp.tcpListen (.ofBitVec port)))) Option.join
  tcpConnect ip port :=
    withNetwork (fun st => st.onTcp (st.tcp.tcpConnect (.ofU32 ip) (.ofBitVec port))) Option.join
  tcpSend i data := withNetwork (fun st => st.onTcp (st.tcp.tcpSend i data)) id
  tcpRecv i cap := withNetwork (fun st => st.onTcp (st.tcp.tcpRecv i cap)) id
  tcpClose i := withNetwork (fun st => st.onTcp ((st.tcp.tcpClose i).map (·, ()))) Option.isSome
  setIp ip k := { k with network := k.network.map fun st => { st with ip := .ofU32 ip } }
  tcpAccept i := withNetwork (fun st => st.onTcp (st.tcp.tcpAccept i)) Option.join
  tcpStatus i k := BitVec.ofNat 64 (match k.network with | some st => st.tcpStatus i | none => 0)
  getIp k := match k.network with | some st => st.ip.toU32 | none => 0
  udpBind port := withNetwork (fun st => .ok (st.udpBind (.ofBitVec port))) Option.join
  udpConnect i ip port :=
    withNetwork (fun st => (st.udpConnect i (.ofU32 ip) (.ofBitVec port)).map (·, ())) Option.isSome
  udpSend i data := withNetwork (fun st => st.udpSend i data) id
  udpRecv i cap := withNetwork (fun st => st.udpRecv i cap) id
  udpClose i k := { k with network := k.network.map fun st => st.udpClose i }
  tcpRecv_le h := withNetwork_le (fun _ _ _ => Net.Stack.tcpRecv_le) h
  udpRecv_le h := withNetwork_le (fun _ _ _ => Net.Stack.udpRecv_le) h

end

end WasmOs
