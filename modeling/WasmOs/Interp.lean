import WasmOs.Engine
import WasmOs.Opcode
import WasmOs.Wp

/-!
# The interpreter

`step` is one round of the dispatch loop of `run`, on a state with a value stack, a control stack and
call frames. The value and control stacks are arrays with a pointer: a return can leave the pointer
above what was pushed, so old entries matter. An index out of range and an unsigned subtraction below
zero are panics. Functions are interpreted, not compiled.
-/

namespace WasmOs

structure CtrlFrame where
  kind : BlockKind
  /-- Where a branch to a loop continues. -/
  pcStart : Nat
  /-- Position of the matching `end`. -/
  endPc : Nat
  deriving DecidableEq, Repr

def BLANK_CTRL : CtrlFrame := ⟨.block, 0, 0⟩

structure Frame where
  bodyIdx : Nat
  pc : Nat
  locals : Nat → BitVec 64
  localCount : Nat
  /-- `ctrlDepth` at function entry. -/
  ctrlBase : Nat
  /-- `vsp` after the parameters were moved into locals. -/
  vspBase : Nat
  resultCount : Nat

/-- What a host function reads and writes; `ω` is the rest of the kernel. -/
structure HostView (ω : Type) where
  vstack : Nat → BitVec 64
  vsp : Nat
  mem : Nat → UInt8
  world : ω

/-- A host function, given the length of the linear memory. -/
def HostFn (ω : Type) : Type := Nat → EStateM (Fault InterpError) (HostView ω) Unit

/-- `env.yield` -/
def hostYield {ω : Type} : HostFn ω := fun _ v => .error (.err .yielded) v

/-- The state of an interpreter; the innermost frame is the first. -/
structure State (ω : Type) where
  vstack : Nat → BitVec 64
  vsp : Nat
  frames : List Frame
  ctrl : Nat → CtrlFrame
  ctrlDepth : Nat
  globals : Nat → BitVec 64
  mem : Nat → UInt8
  currentPages : Nat
  /-- The number of accessible bytes, which `run` keeps in a local. -/
  activeMem : Nat
  yieldRequested : Bool
  world : ω

def State.view {ω : Type} (s : State ω) : HostView ω := ⟨s.vstack, s.vsp, s.mem, s.world⟩

def State.withView {ω : Type} (s : State ω) (v : HostView ω) : State ω :=
  { s with vstack := v.vstack, vsp := v.vsp, mem := v.mem, world := v.world }

abbrev Interp (ω : Type) := EStateM (Fault InterpError) (State ω)

section
variable {ω α : Type}

def lift (m : Rust InterpError α) : Interp ω α := fun s =>
  match m with
  | .ok a => .ok a s
  | .error e => .error e s

/-- `table[i]` in a table of `cap` entries, of which all but the first few have the default value. -/
def tableAt {ε : Type} (cap : Nat) (xs : List α) (default : α) (i : Nat) : Rust ε α :=
  if i < cap then .ok (xs.getD i default) else .error .panic

/-! ## The stacks -/

def vPush (v : BitVec 64) : Interp ω Unit := do
  let s ← get
  if STACK_DEPTH ≤ s.vsp then throw (.err .stackOverflow) else
  set { s with vstack := upd s.vstack s.vsp v, vsp := s.vsp + 1 }

def vPop : Interp ω (BitVec 64) := do
  let s ← get
  if s.vsp = 0 then throw (.err .stackUnderflow) else
  if STACK_DEPTH < s.vsp then throw .panic else
  set { s with vsp := s.vsp - 1 }
  pure (s.vstack (s.vsp - 1))

def ctrlPush (cf : CtrlFrame) : Interp ω Unit := do
  let s ← get
  if MAX_CTRL_DEPTH ≤ s.ctrlDepth then throw (.err .ctrlStackOverflow) else
  set { s with ctrl := upd s.ctrl s.ctrlDepth cf, ctrlDepth := s.ctrlDepth + 1 }

/-- `frames[fdepth - 1]` -/
def topFrame : Interp ω Frame := do
  let s ← get
  match s.frames with
  | [] => throw .panic
  | fr :: _ => pure fr

def setFrame (f : Frame → Frame) : Interp ω Unit := do
  let s ← get
  match s.frames with
  | [] => throw .panic
  | fr :: rest => set { s with frames := f fr :: rest }

def setPc (pc : Nat) : Interp ω Unit := setFrame fun fr => { fr with pc }

/-- `for i in (0..n).rev() { locals[i] = v_pop()?; }` -/
def popParams : Nat → (Nat → BitVec 64) → Interp ω (Nat → BitVec 64)
  | 0, locals => pure locals
  | n + 1, locals => do
    let v ← vPop
    if MAX_LOCALS ≤ n then throw .panic else
    popParams n (upd locals n v)

/-- `for i in 0..n { a[dst + i] = a[src + i]; }` -/
def copyUp (a : Nat → α) (dst src : Nat) : Nat → (Nat → α)
  | 0 => a
  | n + 1 =>
    let a := copyUp a dst src n
    upd a (dst + n) (a (src + n))

/-- Collapse the frame's values to its results and pop the frame. -/
def doReturn : Interp ω Unit := do
  let s ← get
  match s.frames with
  | [] => throw .panic
  | fr :: rest =>
    let src := s.vsp - fr.resultCount
    if 0 < fr.resultCount ∧ (STACK_DEPTH < fr.vspBase + fr.resultCount ∨ STACK_DEPTH < src + fr.resultCount) then
      throw .panic
    else
    set { s with
      vstack := copyUp s.vstack fr.vspBase src fr.resultCount
      vsp := fr.vspBase + fr.resultCount
      ctrlDepth := fr.ctrlBase
      frames := rest }

def doBr (n : Nat) : Interp ω Unit := do
  let s ← get
  match s.frames with
  | [] => throw .panic
  | fr :: rest =>
    if s.ctrlDepth < fr.ctrlBase then throw .panic else
    -- past the outermost block of the function
    if s.ctrlDepth - fr.ctrlBase ≤ n then doReturn else
    let target := s.ctrlDepth - 1 - n
    if MAX_CTRL_DEPTH ≤ target then throw .panic else
    let cf := s.ctrl target
    match cf.kind with
    | .loop => set { s with ctrlDepth := target + 1, frames := { fr with pc := cf.pcStart } :: rest }
    | _ => set { s with ctrlDepth := target, frames := { fr with pc := cf.endPc + 1 } :: rest }

end

section
variable {ω : Type} (code : Code (HostFn ω)) (F : FloatOps)

/-! ## Calls -/

def pushFrame (bodyIdx : Nat) : Interp ω Unit := do
  let s ← get
  if CALL_DEPTH ≤ s.frames.length then throw (.err .callStackOverflow) else
  let typeIdx ← lift (tableAt MAX_FUNCS code.funcTypeIndices 0 bodyIdx)
  let (paramCount, resultCount) := code.types.getD typeIdx (0, 0)
  let declCount ← lift (tableAt MAX_FUNCS code.localCounts 0 bodyIdx)
  -- sums of `u32` counts, far from the end of `usize`
  let total := paramCount + declCount
  if MAX_LOCALS < total then throw (.err .tooManyLocals) else
  let locals ← popParams paramCount fun _ => 0
  modify fun s => { s with frames :=
    { bodyIdx, pc := 0, locals, localCount := total, ctrlBase := s.ctrlDepth, vspBase := s.vsp,
      resultCount } :: s.frames }

/-- Run a host function on the stack and the memory. -/
def callHost (h : HostFn ω) : Interp ω Unit := fun s =>
  match h code.memLen s.view with
  | .ok _ v => .ok () (s.withView v)
  | .error e v => .error e (s.withView v)

/-- The end of `call` and `call_indirect`. -/
def invoke (callee : Nat) : Interp ω Unit :=
  if callee < code.importCount then do
    if MAX_FUNCS ≤ callee then throw .panic else
    match code.hostFns callee with
    | none => throw (.err .importNotFound)
    | some h => callHost code h
  else
    let calleeBody := callee - code.importCount
    if code.bodies.length ≤ calleeBody then throw (.err .funcIndexOutOfRange) else
    pushFrame code calleeBody

/-- `all_func_types`: imports first, then the defined functions. -/
def allFuncTypes (i : Nat) : Nat :=
  if code.importCount ≤ i ∧ i - code.importCount < code.bodies.length then
    code.funcTypeIndices.getD (i - code.importCount) 0
  else code.importTypes.getD i 0

/-! ## Memory -/

/-- Offset and position after a memory immediate. -/
def readMemarg (body : List UInt8) (pc : Nat) : Rust InterpError (Nat × Nat) := do
  let (_, pc) ← readU32 body .malformedCode pc
  readU32 body .malformedCode pc

/-- `addr.wrapping_add(offset as usize)` with `addr` taken as a `u32` -/
def effectiveAddr (addr : BitVec 64) (offset : Nat) : Nat := ((lo32 addr).toNat + offset) % 2 ^ 64

/-- The bounds check of an access; single bytes are compared without an addition. -/
def outOfBounds (w ea active : Nat) : Bool := if w = 1 then active ≤ ea else active < ea + w

/-- A slice `mem[lo..hi]` that the code is about to read or write. -/
def memSlice (lo hi : Nat) : Interp ω Unit :=
  if lo ≤ hi ∧ hi ≤ code.memLen then pure () else throw .panic

def execLoad (body : List UInt8) (pc w : Nat) (ext : Nat → BitVec 64) : Interp ω Nat := do
  let (offset, pc) ← lift (readMemarg body pc)
  let addr ← vPop
  let ea := effectiveAddr addr offset
  let s ← get
  if outOfBounds w ea s.activeMem then throw (.err .memOutOfBounds) else
  memSlice code ea (ea + w)
  vPush (ext (leNat s.mem ea w))
  pure pc

def execStore (body : List UInt8) (pc w : Nat) : Interp ω Nat := do
  let (offset, pc) ← lift (readMemarg body pc)
  let val ← vPop
  let addr ← vPop
  let ea := effectiveAddr addr offset
  let s ← get
  if outOfBounds w ea s.activeMem then throw (.err .memOutOfBounds) else
  memSlice code ea (ea + w)
  set { s with mem := blit s.mem ea (leBytes val.toNat w) }
  pure pc

def execMemoryGrow : Interp ω Unit := do
  let delta := (lo32 (← vPop)).toNat
  let s ← get
  let maxPages := code.memLen / PAGE_SIZE
  if min (s.currentPages + delta) u32Max ≤ maxPages then do
    let pages := s.currentPages + delta
    memSlice code (s.currentPages * PAGE_SIZE) (pages * PAGE_SIZE)
    set { s with
      mem := fillRange s.mem (s.currentPages * PAGE_SIZE) (pages * PAGE_SIZE) 0
      currentPages := pages
      activeMem := pages * PAGE_SIZE }
    vPush (BitVec.ofNat 64 s.currentPages)
  else vPush (-1)

/-- `memory.copy`; its operands are whole stack slots. -/
def execMemoryCopy : Interp ω Unit := do
  let n := (← vPop).toNat
  let src := (← vPop).toNat
  let dst := (← vPop).toNat
  let s ← get
  if s.activeMem < satAdd src n ∨ s.activeMem < satAdd dst n then throw (.err .memOutOfBounds) else
  memSlice code src (src + n)
  memSlice code dst (dst + n)
  set { s with mem := blit s.mem dst (slice s.mem src n) }

def execMemoryFill : Interp ω Unit := do
  let n := (← vPop).toNat
  let val := (← vPop).setWidth 8
  let dst := (← vPop).toNat
  let s ← get
  if s.activeMem < satAdd dst n then throw (.err .memOutOfBounds) else
  memSlice code dst (dst + n)
  set { s with mem := fillRange s.mem dst (dst + n) (UInt8.ofBitVec val) }

/-- The `0xFC` instructions; the position after the immediates. -/
def execBulk (body : List UInt8) (pc : Nat) : Interp ω Nat := do
  let (sub, pc) ← lift (readU32 body .malformedCode pc)
  if sub < 8 then do
    let a ← vPop
    vPush (truncSat F sub a)
    pure pc
  else if sub = 8 then do
    let (_, pc) ← lift (readU32 body .malformedCode pc)
    let count ← vPop
    let _ ← vPop
    let _ ← vPop
    if count ≠ 0 then throw (.err (.unknownOpcode 0xFC)) else pure (pc + 1)
  else if sub = 9 then do
    let (_, pc) ← lift (readU32 body .malformedCode pc)
    pure pc
  else if sub = 10 then do
    execMemoryCopy code
    pure (pc + 2)
  else if sub = 11 then do
    execMemoryFill code
    pure (pc + 1)
  else throw (.err (.unknownOpcode 0xFC))

/-! ## One instruction -/

/-- How a round goes on after an instruction. -/
inductive Next where
  | seq (pc : Nat)
  | br (pc n : Nat)
  | ret
  | call (pc callee : Nat)

/-- `jump_lookup(..).or_else(|| scan_block_end(..)).ok_or(MalformedCode)?` -/
def blockTargets (bodyIdx : Nat) (body : List UInt8) (pcBody : Nat) : Rust InterpError (Nat × Nat) := do
  match ← mapErr Empty.elim (jumpLookup code.jumpTable bodyIdx pcBody) with
  | some t => .ok t
  | none => mapErr (fun _ => .malformedCode) (scanBlockEnd.checked body pcBody)

/-- One label of a `br_table`: its number, the position and the label selected so far. -/
def brTable.step (body : List UInt8) (sel : Nat) : Nat × Nat × Nat → Rust InterpError (Nat × Nat × Nat)
  | (k, pos, target) => do
    let (label, pos) ← readU32 body .malformedCode pos
    .ok (k + 1, pos, if k = sel then label else target)

def pushResult (r : Except NumTrap (BitVec 64)) : Interp ω Unit :=
  match r with
  | .ok v => vPush v
  | .error t => throw (.err t.error)

def execNum : NumOp → Interp ω Unit
  | .un f => do
    let a ← vPop
    pushResult (f a)
  | .bin f => do
    let b ← vPop
    let a ← vPop
    pushResult (f a b)

/-- `callIndirect`: the callee found in the table, its type checked. -/
def execCallIndirect (body : List UInt8) (pc : Nat) : Interp ω Next := do
  let (expectedType, pc) ← lift (readU32 body .malformedCode pc)
  let (_, pc) ← lift (readU32 body .malformedCode pc)
  let i := (lo32 (← vPop)).toNat
  if code.table.size ≤ i then throw (.err .indirectCallNull) else
  if MAX_TABLE ≤ i then throw .panic else
  let callee := code.table.entry i
  if callee = NULL_FUNC then throw (.err .indirectCallNull) else
  let actualType := if callee < MAX_FUNCS then allFuncTypes code callee else usizeMax
  if actualType ≠ expectedType then throw (.err .indirectCallTypeMismatch) else
  pure (.call pc callee)

def execIf (bodyIdx : Nat) (body : List UInt8) (pc : Nat) : Interp ω Next := do
  let pcBody := pc + 1
  let (endPc, elsePc) ← lift (blockTargets code bodyIdx body pcBody)
  let cond ← vPop
  if cond ≠ 0 then do
    ctrlPush ⟨.if_, pcBody, endPc⟩
    pure (.seq pcBody)
  else if elsePc ≠ NO_ELSE then do
    ctrlPush ⟨.if_, pcBody, endPc⟩
    pure (.seq (elsePc + 1))
  else pure (.seq (endPc + 1))

/-- The arm of an opcode in frame `fr`; `pc` is the position after the opcode byte. -/
def dispatch (fr : Frame) (body : List UInt8) (pc : Nat) : Opc → Interp ω Next
  | .nop => pure (.seq pc)
  | .unreachable => throw (.err .unreachable)
  | .block kind => do
    let pcBody := pc + 1
    let (endPc, _) ← lift (blockTargets code fr.bodyIdx body pcBody)
    ctrlPush ⟨kind, pcBody, endPc⟩
    pure (.seq pcBody)
  | .if_ => execIf code fr.bodyIdx body pc
  | .else_ => do
    let s ← get
    if s.ctrlDepth = 0 ∨ MAX_CTRL_DEPTH < s.ctrlDepth then throw .panic else
    set { s with ctrlDepth := s.ctrlDepth - 1 }
    pure (.seq ((s.ctrl (s.ctrlDepth - 1)).endPc + 1))
  | .end_ => do
    let s ← get
    if fr.ctrlBase < s.ctrlDepth then do
      set { s with ctrlDepth := s.ctrlDepth - 1 }
      pure (.seq pc)
    else pure .ret
  | .br => do
    let (n, pc) ← lift (readU32 body .malformedCode pc)
    pure (.br pc n)
  | .brIf => do
    let (n, pc) ← lift (readU32 body .malformedCode pc)
    let cond ← vPop
    if cond ≠ 0 then pure (.br pc n) else pure (.seq pc)
  | .brTable => do
    let (count, pos) ← lift (readU32 body .malformedCode pc)
    let i := (lo32 (← vPop)).toNat
    let sel := if i < count then i else count
    let (_, pos, target) ← lift (iter (brTable.step body sel) (count + 1) (0, pos, 0))
    pure (.br pos target)
  | .return_ => pure .ret
  | .call => do
    let (callee, pc) ← lift (readU32 body .malformedCode pc)
    pure (.call pc callee)
  | .callIndirect => execCallIndirect code body pc
  | .drop => do
    let _ ← vPop
    pure (.seq pc)
  | .select => do
    let cond ← vPop
    let b ← vPop
    let a ← vPop
    vPush (if cond ≠ 0 then a else b)
    pure (.seq pc)
  | .localGet => do
    let (idx, pc) ← lift (readU32 body .malformedCode pc)
    if fr.localCount ≤ idx then throw (.err .localIndexOutOfRange) else
    if MAX_LOCALS ≤ idx then throw .panic else
    vPush (fr.locals idx)
    pure (.seq pc)
  | .localSet => do
    let (idx, pc) ← lift (readU32 body .malformedCode pc)
    if fr.localCount ≤ idx then throw (.err .localIndexOutOfRange) else
    let val ← vPop
    if MAX_LOCALS ≤ idx then throw .panic else
    setFrame fun fr => { fr with locals := upd fr.locals idx val }
    pure (.seq pc)
  | .localTee => do
    let (idx, pc) ← lift (readU32 body .malformedCode pc)
    if fr.localCount ≤ idx then throw (.err .localIndexOutOfRange) else
    let s ← get
    if s.vsp = 0 then throw (.err .stackUnderflow) else
    if STACK_DEPTH < s.vsp ∨ MAX_LOCALS ≤ idx then throw .panic else
    setFrame fun fr => { fr with locals := upd fr.locals idx (s.vstack (s.vsp - 1)) }
    pure (.seq pc)
  | .globalGet => do
    let (idx, pc) ← lift (readU32 body .malformedCode pc)
    if code.globalMutable.length ≤ idx then throw (.err .globalIndexOutOfRange) else
    if MAX_GLOBALS ≤ idx then throw .panic else
    let s ← get
    vPush (s.globals idx)
    pure (.seq pc)
  | .globalSet => do
    let (idx, pc) ← lift (readU32 body .malformedCode pc)
    if code.globalMutable.length ≤ idx then throw (.err .globalIndexOutOfRange) else
    if ¬ (← lift (tableAt MAX_GLOBALS code.globalMutable false idx)) then throw (.err .globalImmutable) else
    let val ← vPop
    modify fun s => { s with globals := upd s.globals idx val }
    pure (.seq pc)
  | .load w ext => do
    let pc ← execLoad code body pc w ext
    pure (.seq pc)
  | .store w => do
    let pc ← execStore code body pc w
    pure (.seq pc)
  | .memorySize => do
    let s ← get
    vPush (BitVec.ofNat 64 s.currentPages)
    pure (.seq (pc + 1))
  | .memoryGrow => do
    execMemoryGrow code
    pure (.seq (pc + 1))
  | .i32Const => do
    let (val, pc) ← lift (readI32 body .malformedCode pc)
    vPush (sx val)
    pure (.seq pc)
  | .i64Const => do
    let (val, pc) ← lift (readI64 body .malformedCode pc)
    vPush val
    pure (.seq pc)
  | .floatConst w => do
    if body.length < pc + w then throw (.err .malformedCode) else
    vPush (BitVec.ofNat 64 (leNat (fun i => body.getD i 0) pc w))
    pure (.seq (pc + w))
  | .num op => do
    execNum op
    pure (.seq pc)
  | .bulk => do
    let pc ← execBulk code F body pc
    pure (.seq pc)
  | .unknown => throw (.err (.unknownOpcode (body.getD (pc - 1) 0)))

/-! ## The loop -/

def finish : Next → Interp ω Unit
  | .seq pc => setPc pc
  | .br pc n => do
    setPc pc
    doBr n
  | .ret => doReturn
  | .call pc callee => do
    setPc pc
    invoke code callee

/-- One round of the loop of `run`. -/
def step : Interp ω Unit := do
  let s ← get
  if s.yieldRequested then do
    set { s with yieldRequested := false }
    throw (.err .yielded)
  else
  let fr ← topFrame
  let body ← lift (tableAt MAX_FUNCS code.bodies [] fr.bodyIdx)
  match body[fr.pc]? with
  -- implicit return at the end of the body
  | none => doReturn
  | some op => do
    let next ← dispatch code F fr body (fr.pc + 1) (decodeOp F op)
    finish code next

/-- At most `fuel` rounds; `true` if no frame is left. -/
def runLoop : Nat → Interp ω Bool
  | 0 => do
    let s ← get
    pure s.frames.isEmpty
  | fuel + 1 => do
    let s ← get
    if s.frames.isEmpty then pure true else
    step code F
    runLoop fuel

/-- The number of accessible bytes, computed once per `run`. -/
def enterRun : Interp ω Unit := modify fun s => { s with activeMem := s.currentPages * PAGE_SIZE }

def run (fuel : Nat) : Interp ω Bool := do
  enterRun
  runLoop code F fuel

/-- `call` up to the dispatch loop. -/
def beginCall (funcIdx : Nat) : Interp ω Unit :=
  if funcIdx < code.importCount then throw (.err .importNotFound) else
  let bodyIdx := funcIdx - code.importCount
  if code.bodies.length ≤ bodyIdx then throw (.err .funcIndexOutOfRange) else
  pushFrame code bodyIdx

/-- `Interpreter::call` -/
def call (funcIdx fuel : Nat) : Interp ω Bool := do
  beginCall code funcIdx
  run code F fuel

def resetForCall : Interp ω Unit :=
  modify fun s => { s with vsp := 0, frames := [], ctrlDepth := 0, yieldRequested := false }

/-- The arguments of `start_task`, pushed on the value stack. -/
def pushArgs : List (BitVec 32) → Interp ω Unit
  | [] => pure ()
  | arg :: args => do
    vPush (sx arg)
    pushArgs args

/-- `start_task` on a function index, up to the dispatch loop. -/
def beginTask (funcIdx : Nat) (args : List (BitVec 32)) : Interp ω Unit := do
  resetForCall
  pushArgs args
  beginCall code funcIdx

end

/-- The state `spawn` leaves behind; `activeMem` is computed anew by every `run`. -/
def Instance.initial {ω : Type} (inst : Instance (HostFn ω)) (world : ω) : State ω :=
  { vstack := fun _ => 0, vsp := 0, frames := [], ctrl := fun _ => BLANK_CTRL, ctrlDepth := 0
    globals := inst.globals, mem := inst.mem, currentPages := inst.currentPages
    activeMem := inst.currentPages * PAGE_SIZE
    yieldRequested := false, world }

/-- The states of an instance between rounds, under any sequence of `start_task` and `resume_task`, if
every round starts in a state that satisfies `Ok`. A failed call or round leaves its state behind, and
the rest of the kernel changes at will. -/
inductive Reach {ω : Type} (code : Code (HostFn ω)) (F : FloatOps) (Ok : State ω → Prop) (s₀ : State ω) :
    State ω → Prop
  | spawn : Reach code F Ok s₀ s₀
  | start {s : State ω} (funcIdx : Nat) (args : List (BitVec 32)) : Reach code F Ok s₀ s →
      Reach code F Ok s₀ (Hoare.after ((beginTask code funcIdx args >>= fun _ => enterRun) s))
  | resume {s : State ω} : Reach code F Ok s₀ s → Reach code F Ok s₀ (Hoare.after (enterRun s))
  | round {s : State ω} : Reach code F Ok s₀ s → s.frames ≠ [] → Ok s →
    Reach code F Ok s₀ (Hoare.after (step code F s))
  | kernel {s : State ω} (world : ω) : Reach code F Ok s₀ s → Reach code F Ok s₀ { s with world }

end WasmOs
