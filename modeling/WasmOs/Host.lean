import WasmOs.Interp

/-!
# Host functions

The functions a module can import. Each takes its arguments from the value stack, checks its pointers
in its own way, reads or writes the memory and pushes a result. What lies behind them (the console, the
keyboard, the files, the screen and the network) is `Services`. The bytes of the memory that are read or
written are kept in `touched`.
-/

namespace WasmOs

inductive Key where
  | char (c : Nat)
  | enter | backspace
  /-- Arrows, `Delete`, `Home`, `End`, `Tab` and unknown keys. -/
  | other
  deriving DecidableEq, Repr

/-- The kernel behind the host functions; without a network the calls on it return the failure. -/
structure Services (ω : Type) where
  print : List UInt8 → ω → Rust Empty ω
  nextKey : ω → Rust Empty (Key × ω)
  uptimeMs : ω → Int
  opcodeCount : ω → BitVec 64
  sleepMs : Nat → ω → ω
  findFile : ω → List UInt8 → Option (List UInt8)
  /-- `alloc_write_buf`, `remove_file`, `register_file` and `fat_write_file`; `false` if the pool is exhausted. -/
  writeFile : List UInt8 → List UInt8 → ω → Rust Empty (Bool × ω)
  args : ω → List UInt8
  /-- The address of `SLOT_MEM`, behind which the memory of every slot lies a multiple of four bytes. -/
  slotMem : Nat
  setPixel : BitVec 32 → BitVec 32 → BitVec 32 → ω → Rust Empty ω
  blitRgb32 : List (BitVec 32) → Nat → Nat → ω → Rust Empty ω
  tcpListen : BitVec 16 → ω → Rust Empty (Option Nat × ω)
  tcpConnect : BitVec 32 → BitVec 16 → ω → Rust Empty (Option Nat × ω)
  tcpSend : Nat → List UInt8 → ω → Rust Empty (Option Nat × ω)
  /-- The bytes a buffer of the given length receives. -/
  tcpRecv : Nat → Nat → ω → Rust Empty (Option (List UInt8) × ω)
  tcpClose : Nat → ω → Rust Empty (Bool × ω)
  setIp : BitVec 32 → ω → ω
  tcpAccept : Nat → ω → Rust Empty (Option Nat × ω)
  tcpStatus : Nat → ω → BitVec 64
  getIp : ω → BitVec 32
  udpBind : BitVec 16 → ω → Rust Empty (Option Nat × ω)
  udpConnect : Nat → BitVec 32 → BitVec 16 → ω → Rust Empty (Bool × ω)
  udpSend : Nat → List UInt8 → ω → Rust Empty (Option Nat × ω)
  udpRecv : Nat → Nat → ω → Rust Empty (Option (List UInt8) × ω)
  udpClose : Nat → ω → ω
  tcpRecv_le : ∀ {handle cap w data w'}, tcpRecv handle cap w = .ok (some data, w') → data.length ≤ cap
  udpRecv_le : ∀ {handle cap w data w'}, udpRecv handle cap w = .ok (some data, w') → data.length ≤ cap

/-- The kernel, and the ranges of the memory that the host has read or written. -/
structure Traced (ω : Type) where
  touched : List (Nat × Nat)
  rest : ω

abbrev Host (ω : Type) := EStateM (Fault InterpError) (HostView (Traced ω))

section
variable {ω α : Type}

/-- `n` arguments, the first one deepest. -/
def popArgs (n : Nat) : Host ω (Nat → BitVec 64) := do
  let v ← get
  if v.vsp < n then throw (.err .stackUnderflow) else
  if 0 < n ∧ STACK_DEPTH < v.vsp then throw .panic else
  set { v with vsp := v.vsp - n }
  pure fun i => v.vstack (v.vsp - n + i)

/-- `vstack[*vsp] = result; *vsp += 1;` -/
def pushHost (result : BitVec 64) : Host ω Unit := do
  let v ← get
  if STACK_DEPTH ≤ v.vsp then throw .panic else
  set { v with vstack := upd v.vstack v.vsp result, vsp := v.vsp + 1 }

/-- The check of the functions without arguments. -/
def roomHost : Host ω Unit := do
  let v ← get
  if STACK_DEPTH ≤ v.vsp then throw (.err .stackOverflow) else pure ()

/-- `mem[lo..hi]`, not read yet. -/
def sliceMem (memLen lo hi : Nat) : Host ω Unit := if lo ≤ hi ∧ hi ≤ memLen then pure () else throw .panic

def touch (lo hi : Nat) : Host ω Unit :=
  modify fun v => { v with world := { v.world with touched := v.world.touched ++ [(lo, hi)] } }

def readMem (memLen lo hi : Nat) : Host ω (List UInt8) := do
  sliceMem memLen lo hi
  touch lo hi
  let v ← get
  pure (slice v.mem lo (hi - lo))

def writeMem (memLen lo : Nat) (data : List UInt8) : Host ω Unit := do
  sliceMem memLen lo (lo + data.length)
  touch lo (lo + data.length)
  modify fun v => { v with mem := blit v.mem lo data }

def service (f : ω → Rust Empty (α × ω)) : Host ω α := fun v =>
  match f v.world.rest with
  | .ok (a, w) => .ok a { v with world := { v.world with rest := w } }
  | .error .panic => .error .panic v
  | .error .hang => .error .hang v

def perform (f : ω → Rust Empty ω) : Host ω Unit := service fun w => (f w).map ((), ·)

def inform (f : ω → ω) : Host ω Unit := modify fun v => { v with world := { v.world with rest := f v.world.rest } }

def query (f : ω → α) : Host ω α := do
  let v ← get
  pure (f v.world.rest)

end

/-! ## Numbers as text -/

def ascii (s : String) : List UInt8 := s.toList.map fun c => UInt8.ofNat c.toNat

/-- `while val > 0 { pos -= 1; buf[pos] = digit; }`, with the part of the buffer that is filled. -/
def digits : Nat → Nat → Nat → List UInt8 → Rust Empty (Nat × List UInt8)
  | 0, _, _, _ => .error .hang
  | fuel + 1, val, pos, text =>
    if val = 0 then .ok (pos, text) else do
      let pos ← usub pos 1
      digits fuel (val / 10) pos (UInt8.ofNat (48 + val % 10) :: text)

/-- `fmt_i32` and `fmt_i64`, with a buffer of `cap` bytes. -/
def fmtInt (cap : Nat) (n : Int) : Rust Empty (List UInt8) := do
  if n = 0 then .ok (ascii "0\n") else
  let (pos, text) ← digits 64 n.natAbs cap []
  if n < 0 then do
    let _ ← usub pos 1
    .ok (ascii "-" ++ text ++ ascii "\n")
  else .ok (text ++ ascii "\n")

def hexDigit (n : Nat) : UInt8 := if n < 10 then UInt8.ofNat (48 + n) else UInt8.ofNat (55 + n)

def fmtHex (n : BitVec 32) : List UInt8 :=
  ascii "0x" ++ (List.range 8).reverse.map (fun i => hexDigit (n.toNat / 16 ^ i % 16)) ++ ascii "\n"

section
variable {ω : Type} (S : Services ω) (fuel : Nat)

/-! ## Console and time -/

def hostPrint : HostFn (Traced ω) := fun memLen => do
  let a ← popArgs 2
  let ptr := (a 0).toNat
  let len := (a 1).toNat
  let bytes ← readMem memLen ptr (min (satAdd ptr len) memLen)
  if validUtf8 bytes then perform (S.print bytes) else pure ()

/-- `println!` of a text that ends in a line break, which is printed by itself. -/
def printLine (line : List UInt8) : Host ω Unit := do
  perform (S.print line.dropLast)
  perform (S.print (ascii "\n"))

/-- `print_int`, `print_i64`: one argument, printed in a buffer of `cap` bytes. -/
def printNumber (cap : Nat) (value : BitVec 64 → Int) : HostFn (Traced ω) := fun _ => do
  let a ← popArgs 1
  let line ← service fun w => (fmtInt cap (value (a 0))).map (·, w)
  printLine S line

def hostPrintInt : HostFn (Traced ω) := printNumber S 11 fun n => (lo32 n).toInt

def hostPrintI64 : HostFn (Traced ω) := printNumber S 20 BitVec.toInt

def hostPrintChar : HostFn (Traced ω) := fun _ => do
  let a ← popArgs 1
  let c := UInt8.ofBitVec ((a 0).setWidth 8)
  if validUtf8 [c] then perform (S.print [c]) else pure ()

def hostPrintHex : HostFn (Traced ω) := fun _ => do
  let a ← popArgs 1
  printLine S (fmtHex (lo32 (a 0)))

def hostSleepMs : HostFn (Traced ω) := fun _ => do
  let a ← popArgs 1
  inform (S.sleepMs (lo32 (a 0)).toInt.toNat)
  throw (.err .yielded)

def hostUptimeMs : HostFn (Traced ω) := fun _ => do
  roomHost
  let ms ← query S.uptimeMs
  pushHost (BitVec.ofInt 64 (min ms (2 ^ 31 - 1)))

def hostWasmOpcount : HostFn (Traced ω) := fun _ => do
  roomHost
  let n ← query S.opcodeCount
  pushHost n

def hostExit : HostFn (Traced ω) := fun _ => do
  let _ ← popArgs 1
  throw (.err .exited)

/-! ## The keyboard -/

/-- Keys are asked for until a printable one or `Enter` comes. -/
def hostReadChar.loop : Nat → Host ω (BitVec 64)
  | 0 => throw .hang
  | fuel + 1 => do
    match ← service S.nextKey with
    | .char c => pure (sx (BitVec.ofNat 32 c))
    | .enter => pure 10
    | _ => hostReadChar.loop fuel

def hostReadChar : HostFn (Traced ω) := fun _ => do
  roomHost
  let code ← hostReadChar.loop S fuel
  pushHost code

/-- The line so far has `len` bytes. -/
def hostReadLine.loop (memLen ptr cap : Nat) : Nat → Nat → Host ω Nat
  | 0, _ => throw .hang
  | fuel + 1, len => do
    match ← service S.nextKey with
    | .enter =>
      perform (S.print (ascii "\n"))
      pure len
    | .backspace =>
      if 0 < len then do
        perform (S.print [0x08, 0x20, 0x08])
        hostReadLine.loop memLen ptr cap fuel (len - 1)
      else hostReadLine.loop memLen ptr cap fuel len
    | .char c =>
      if c < 128 ∧ len < cap then do
        writeMem memLen (ptr + len) [UInt8.ofNat c]
        perform (S.print [UInt8.ofNat c])
        hostReadLine.loop memLen ptr cap fuel (len + 1)
      else hostReadLine.loop memLen ptr cap fuel len
    | .other => hostReadLine.loop memLen ptr cap fuel len

def hostReadLine : HostFn (Traced ω) := fun memLen => do
  let a ← popArgs 2
  let ptr := (a 0).toNat
  let cap := (a 1).toNat
  if memLen < satAdd ptr cap then pushHost (-1) else
  let len ← hostReadLine.loop S memLen ptr cap fuel 0
  pushHost (BitVec.ofNat 64 len)

/-! ## Files and arguments -/

def fsRead (memLen namePtr nameLen bufPtr bufCap : Nat) : Host ω (BitVec 64) := do
  let nameEnd := satAdd namePtr nameLen
  if memLen < nameEnd then pure (-1) else
  let name ← readMem memLen namePtr nameEnd
  if validUtf8 name = false then pure (-1) else
  match ← query (S.findFile · name) with
  | none => pure (-1)
  | some data =>
    if memLen < satAdd bufPtr bufCap ∨ bufCap < data.length then pure (-1) else
    writeMem memLen bufPtr data
    pure (BitVec.ofNat 64 data.length)

def hostFsRead : HostFn (Traced ω) := fun memLen => do
  let a ← popArgs 4
  let result ← fsRead S memLen (a 0).toNat (a 1).toNat (a 2).toNat (a 3).toNat
  pushHost result

def fsWrite (memLen namePtr nameLen bufPtr bufLen : Nat) : Host ω (BitVec 64) := do
  if memLen < satAdd namePtr nameLen ∨ memLen < satAdd bufPtr bufLen then pure (-1) else
  -- a name is cut off after 64 bytes
  let name ← readMem memLen namePtr (namePtr + min nameLen 64)
  if validUtf8 name = false then pure (-1) else
  let data ← readMem memLen bufPtr (bufPtr + bufLen)
  if ← service (S.writeFile name data) then pure 0 else pure (-1)

def hostFsWrite : HostFn (Traced ω) := fun memLen => do
  let a ← popArgs 4
  let result ← fsWrite S memLen (a 0).toNat (a 1).toNat (a 2).toNat (a 3).toNat
  pushHost result

def fsSize (memLen namePtr nameLen : Nat) : Host ω (BitVec 64) := do
  let nameEnd := satAdd namePtr nameLen
  if memLen < nameEnd then pure (-1) else
  let name ← readMem memLen namePtr nameEnd
  if validUtf8 name = false then pure (-1) else
  match ← query (S.findFile · name) with
  | none => pure (-1)
  | some data => pure (BitVec.ofNat 64 data.length)

def hostFsSize : HostFn (Traced ω) := fun memLen => do
  let a ← popArgs 2
  let result ← fsSize S memLen (a 0).toNat (a 1).toNat
  pushHost result

def argsGet (memLen ptr cap : Nat) : Host ω (BitVec 64) := do
  let args ← query S.args
  if memLen < satAdd ptr args.length ∨ cap < args.length then pure (-1) else
  writeMem memLen ptr args
  pure (BitVec.ofNat 64 args.length)

def hostArgsGet : HostFn (Traced ω) := fun memLen => do
  let a ← popArgs 2
  let result ← argsGet S memLen (a 0).toNat (a 1).toNat
  pushHost result

/-! ## The screen -/

def hostFbSetPixel : HostFn (Traced ω) := fun _ => do
  let a ← popArgs 3
  perform (S.setPixel (lo32 (a 0)) (lo32 (a 1)) (lo32 (a 2)))

def hostFbPresent : HostFn (Traced ω) := fun _ => pure ()

def satMul (a b : Nat) : Nat := min (a * b) usizeMax

/-- The bytes as a slice of `u32`. -/
def asPixels : List UInt8 → List (BitVec 32)
  | b :: c :: d :: e :: bytes =>
    BitVec.ofNat 32 (b.toNat + 256 * c.toNat + 65536 * d.toNat + 16777216 * e.toNat) :: asPixels bytes
  | _ => []

/-- `from_raw_parts` panics if the slice is not aligned. -/
def hostFbBlit : HostFn (Traced ω) := fun memLen => do
  let a ← popArgs 3
  let ptr := (a 0).toNat
  let width := (a 1).toNat
  let height := (a 2).toNat
  let byteCount := satMul (satMul width height) 4
  if memLen < satAdd ptr byteCount then pure () else
  if ¬ 4 ∣ S.slotMem + ptr then throw .panic else
  let pixels ← readMem memLen ptr (ptr + byteCount)
  perform (S.blitRgb32 (asPixels pixels) width height)

/-! ## The network -/

/-- A handle, a length or `-1`. -/
def natOrMinusOne : Option Nat → BitVec 64
  | some n => BitVec.ofNat 64 n
  | none => -1

def zeroOrMinusOne (ok : Bool) : BitVec 64 := if ok then 0 else -1

/-- Take `n` arguments, call the network, push the result. -/
def netCall {α : Type} (n : Nat) (call : (Nat → BitVec 64) → ω → Rust Empty (α × ω)) (result : α → BitVec 64) :
    HostFn (Traced ω) := fun _ => do
  let a ← popArgs n
  let r ← service (call a)
  pushHost (result r)

def hostNetListen : HostFn (Traced ω) := netCall 1 (fun a => S.tcpListen ((a 0).setWidth 16)) natOrMinusOne

def hostNetConnect : HostFn (Traced ω) :=
  netCall 2 (fun a => S.tcpConnect (lo32 (a 0)) ((a 1).setWidth 16)) natOrMinusOne

def hostNetSend : HostFn (Traced ω) := fun memLen => do
  let a ← popArgs 3
  let ptr := (a 1).toNat
  let len := (a 2).toNat
  -- the slice handed to the network counts as read
  let data ← readMem memLen ptr (satAdd ptr len)
  let r ← service (S.tcpSend (a 0).toNat data)
  pushHost (natOrMinusOne r)

def receive (memLen ptr : Nat) (failed : BitVec 64) : Option (List UInt8) → Host ω (BitVec 64)
  | none => pure failed
  | some data => do
    writeMem memLen ptr data
    pure (BitVec.ofNat 64 data.length)

def hostNetRecv : HostFn (Traced ω) := fun memLen => do
  let a ← popArgs 3
  let ptr := (a 1).toNat
  let cap := (a 2).toNat
  sliceMem memLen ptr (satAdd ptr cap)
  let r ← service (S.tcpRecv (a 0).toNat (satAdd ptr cap - ptr))
  let n ← receive memLen ptr (-1) r
  pushHost n

def hostNetClose : HostFn (Traced ω) := netCall 1 (fun a => S.tcpClose (a 0).toNat) zeroOrMinusOne

def hostNetSetIp : HostFn (Traced ω) := netCall 1 (fun a w => .ok ((), S.setIp (lo32 (a 0)) w)) fun _ => 0

def hostNetAccept : HostFn (Traced ω) := netCall 1 (fun a => S.tcpAccept (a 0).toNat) natOrMinusOne

def hostNetStatus : HostFn (Traced ω) := netCall 1 (fun a w => .ok (S.tcpStatus (a 0).toNat w, w)) id

def hostNetGetIp : HostFn (Traced ω) := fun _ => do
  roomHost
  let ip ← query S.getIp
  pushHost (ip.setWidth 64)

def hostNetUdpBind : HostFn (Traced ω) := netCall 1 (fun a => S.udpBind ((a 0).setWidth 16)) natOrMinusOne

def hostNetUdpConnect : HostFn (Traced ω) :=
  netCall 3 (fun a => S.udpConnect (a 0).toNat (lo32 (a 1)) ((a 2).setWidth 16)) zeroOrMinusOne

def hostNetUdpSend : HostFn (Traced ω) := fun memLen => do
  let a ← popArgs 3
  let ptr := (a 1).toNat
  let len := (a 2).toNat
  let data ← readMem memLen ptr (min (satAdd ptr len) memLen)
  let r ← service (S.udpSend (a 0).toNat data)
  pushHost (natOrMinusOne r)

def hostNetUdpRecv : HostFn (Traced ω) := fun memLen => do
  let a ← popArgs 3
  let ptr := (a 1).toNat
  let cap := (a 2).toNat
  let hi := min (satAdd ptr cap) memLen
  sliceMem memLen ptr hi
  let r ← service (S.udpRecv (a 0).toNat (hi - ptr))
  let n ← receive memLen ptr 0 r
  pushHost n

def hostNetUdpClose : HostFn (Traced ω) := netCall 1 (fun a w => .ok ((), S.udpClose (a 0).toNat w)) fun _ => 0

/-! ## The registry -/

/-- A range of the memory that is refused if it ends past the end. -/
def whole (memLen ptr len : Nat) : List (Nat × Nat) := if memLen < satAdd ptr len then [] else [(ptr, ptr + len)]

/-- A range of the memory that is cut off at the end. -/
def clipped (memLen ptr len : Nat) : List (Nat × Nat) := [(ptr, min (satAdd ptr len) memLen)]

structure HostEntry (ω : Type) where
  module : List UInt8
  name : List UInt8
  params : Nat
  results : Nat
  func : HostFn (Traced ω)
  /-- The parts of the memory that the function makes its own, once the pointers and lengths among its
  arguments are checked or cut off. -/
  asked : Nat → (Nat → BitVec 64) → ω → List (Nat × Nat) := fun _ _ _ => []

/-- `init_host_fns` -/
def hostRegistry : List (HostEntry ω) :=
  let env := ascii "env"
  let net := ascii "net"
  [ { module := env, name := ascii "print", params := 2, results := 0, func := hostPrint S
      asked := fun memLen a _ => clipped memLen (a 0).toNat (a 1).toNat },
    { module := env, name := ascii "print_int", params := 1, results := 0, func := hostPrintInt S },
    { module := env, name := ascii "print_i64", params := 1, results := 0, func := hostPrintI64 S },
    { module := env, name := ascii "print_char", params := 1, results := 0, func := hostPrintChar S },
    { module := env, name := ascii "print_hex", params := 1, results := 0, func := hostPrintHex S },
    { module := env, name := ascii "yield", params := 0, results := 0, func := hostYield },
    { module := env, name := ascii "sleep_ms", params := 1, results := 0, func := hostSleepMs S },
    { module := env, name := ascii "uptime_ms", params := 0, results := 1, func := hostUptimeMs S },
    { module := env, name := ascii "wasm_opcount", params := 0, results := 1, func := hostWasmOpcount S },
    { module := env, name := ascii "exit", params := 1, results := 0, func := hostExit },
    { module := env, name := ascii "read_char", params := 0, results := 1, func := hostReadChar S fuel },
    { module := env, name := ascii "read_line", params := 2, results := 1, func := hostReadLine S fuel
      asked := fun memLen a _ => whole memLen (a 0).toNat (a 1).toNat },
    { module := env, name := ascii "fs_read", params := 4, results := 1, func := hostFsRead S
      asked := fun memLen a _ =>
        if memLen < satAdd (a 0).toNat (a 1).toNat then []
        else ((a 0).toNat, (a 0).toNat + (a 1).toNat) :: whole memLen (a 2).toNat (a 3).toNat },
    { module := env, name := ascii "fs_write", params := 4, results := 1, func := hostFsWrite S
      asked := fun memLen a _ =>
        if memLen < satAdd (a 0).toNat (a 1).toNat ∨ memLen < satAdd (a 2).toNat (a 3).toNat then []
        else [((a 0).toNat, (a 0).toNat + min (a 1).toNat 64), ((a 2).toNat, (a 2).toNat + (a 3).toNat)] },
    { module := env, name := ascii "fs_size", params := 2, results := 1, func := hostFsSize S
      asked := fun memLen a _ => whole memLen (a 0).toNat (a 1).toNat },
    { module := env, name := ascii "args_get", params := 2, results := 1, func := hostArgsGet S
      asked := fun memLen a w => if (a 1).toNat < (S.args w).length then [] else
        whole memLen (a 0).toNat (S.args w).length },
    { module := env, name := ascii "fb_set_pixel", params := 3, results := 0, func := hostFbSetPixel S },
    { module := env, name := ascii "fb_present", params := 0, results := 0, func := hostFbPresent },
    { module := env, name := ascii "fb_blit", params := 3, results := 0, func := hostFbBlit S
      asked := fun memLen a _ => whole memLen (a 0).toNat (satMul (satMul (a 1).toNat (a 2).toNat) 4) },
    { module := net, name := ascii "listen", params := 1, results := 1, func := hostNetListen S },
    { module := net, name := ascii "connect", params := 2, results := 1, func := hostNetConnect S },
    { module := net, name := ascii "send", params := 3, results := 1, func := hostNetSend S
      asked := fun memLen a _ => whole memLen (a 1).toNat (a 2).toNat },
    { module := net, name := ascii "recv", params := 3, results := 1, func := hostNetRecv S
      asked := fun memLen a _ => whole memLen (a 1).toNat (a 2).toNat },
    { module := net, name := ascii "close", params := 1, results := 1, func := hostNetClose S },
    { module := net, name := ascii "set_ip", params := 1, results := 1, func := hostNetSetIp S },
    { module := net, name := ascii "accept", params := 1, results := 1, func := hostNetAccept S },
    { module := net, name := ascii "status", params := 1, results := 1, func := hostNetStatus S },
    { module := net, name := ascii "get_ip", params := 0, results := 1, func := hostNetGetIp S },
    { module := net, name := ascii "udp_bind", params := 1, results := 1, func := hostNetUdpBind S },
    { module := net, name := ascii "udp_connect", params := 3, results := 1, func := hostNetUdpConnect S },
    { module := net, name := ascii "udp_send", params := 3, results := 1, func := hostNetUdpSend S
      asked := fun memLen a _ => clipped memLen (a 1).toNat (a 2).toNat },
    { module := net, name := ascii "udp_recv", params := 3, results := 1, func := hostNetUdpRecv S
      asked := fun memLen a _ => clipped memLen (a 1).toNat (a 2).toNat },
    { module := net, name := ascii "udp_close", params := 1, results := 1, func := hostNetUdpClose S } ]

def lookupHost (module name : List UInt8) : Option (HostFn (Traced ω)) :=
  ((hostRegistry S fuel).find? fun e => e.module == module && e.name == name).map HostEntry.func

end

end WasmOs
