import Wasmill.Env
import Wasmill.Ssa.Function

/-! The state of compiling one function body.

Locals are bound to values, and the operand stack holds values. The block being filled is `current`;
without one the code at hand is dead. Each open `block`, `loop` and `if` has a `Frame`. Branches to
the end of a frame leave before the block they go to exists, and wait in the frame as `pending`. -/
namespace Wasmill.Ssa

/-- An edge that waits for the end of a frame, with the locals and the block result on it. -/
structure Pending where
  source : EdgeRef
  locals : Array Value
  result : Option Value
  deriving DecidableEq, Inhabited

/-- The block at the head of a loop and the edges into it. -/
structure LoopHeader where
  block : Nat
  entry : EdgeRef
  backEdges : Array EdgeRef
  deriving DecidableEq, Inhabited

/-- Frames opened in dead code have neither a header nor an edge around their first arm. -/
inductive FrameKind
  | function
  | block
  | loop (header : Option LoopHeader)
  | ifBlock (elseEdge : Option EdgeRef) (entryLocals : Array Value)
  deriving DecidableEq, Inhabited

structure Frame where
  kind : FrameKind
  result : Option ValType
  /-- The height of the operand stack below the frame. -/
  base : Nat
  pending : Array Pending := #[]
  deriving DecidableEq, Inhabited

structure Builder where
  func : Function
  current : Option Nat
  /-- The module offset of the operator at hand. -/
  srcloc : Nat
  locals : Array Value
  localTypes : Array ValType
  /-- Operands, the topmost first. -/
  stack : List Value
  /-- Frames, the innermost first. -/
  control : List Frame
  deriving Inhabited

abbrev Build := StateT Builder (Except Error)

namespace Build

def broken (cause : Broken) : Build α := throw (.internal cause)

/-- Refuses the operator at hand. -/
def invalid (fault : Fault) : Build α := do throw (.invalid fault (← get).srcloc)

def isDead : Build Bool := return (← get).current.isNone

def modifyFunc (g : Function → Function) : Build Unit :=
  modify fun s => { s with func := g s.func }

def push (v : Value) : Build Unit := modify fun s => { s with stack := v :: s.stack }

def pushAll (v : Option Value) : Build Unit :=
  match v with
  | some v => push v
  | none => return

def pop : Build Value := do
  let s ← get
  match s.stack with
  | v :: rest =>
    set { s with stack := rest }
    return v
  | [] => broken .stackUnderflow

def peek : Build Value := do
  match (← get).stack with
  | v :: _ => return v
  | [] => broken .stackUnderflow

/-- The topmost `n` operands, the lowest of them first. -/
def popMany (n : Nat) : Build (List Value) := do
  let s ← get
  if s.stack.length < n then broken .stackUnderflow
  else
    set { s with stack := s.stack.drop n }
    return (s.stack.take n).reverse

/-- The topmost operand, where a value of the given type is expected. -/
def popResult (ty : Option ValType) : Build (Option Value) :=
  if ty.isSome then some <$> pop else return none

def peekResult (ty : Option ValType) : Build (Option Value) :=
  if ty.isSome then some <$> peek else return none

/-- Drops operands down to the given height. -/
def truncate (height : Nat) : Build Unit :=
  modify fun s => { s with stack := s.stack.drop (s.stack.length - height) }

/-- Adds an instruction to the current block; in dead code nothing happens. -/
def append (inst : Inst) (result : Option Value) : Build Unit :=
  modify fun s =>
    match s.current with
    | some b =>
      { s with func := s.func.modifyBlock b fun block =>
          { block with steps := block.steps.push { inst, result, srcloc := s.srcloc } } }
    | none => s

/-- Adds an instruction with a result, and gives its value. -/
def value (inst : Inst) (ty : ValType) : Build Value := do
  let s ← get
  let (v, func) := s.func.newValue ty
  set { s with func }
  append inst (some v)
  return v

def pushValue (inst : Inst) (ty : ValType) : Build Unit := do push (← value inst ty)

/-- Adds an instruction and pushes its result, if it has one. -/
def emit (inst : Inst) : Option ValType → Build Unit
  | some ty => pushValue inst ty
  | none => append inst none

/-- Ends the current block, and gives its number; what follows is dead. -/
def leave (exit : Exit) : Build Nat := do
  let s ← get
  match s.current with
  | some b =>
    let func := s.func.modifyBlock b fun block => { block with leave := some ⟨exit, s.srcloc⟩ }
    set { s with func, current := none }
    return b
  | none => return 0

def newBlock : Build Nat := do
  let s ← get
  let (b, func) := s.func.newBlock
  set { s with func }
  return b

def newParam (b : Nat) (ty : ValType) : Build Value := do
  let s ← get
  let (v, func) := s.func.newParam b ty
  set { s with func }
  return v

def enter (b : Nat) : Build Unit := modify fun s => { s with current := some b }

def pushFrame (frame : Frame) : Build Unit :=
  modify fun s => { s with control := frame :: s.control }

/-- A frame that starts at the present height of the operand stack. -/
def openFrame (kind : FrameKind) (result : Option ValType) : Build Unit := do
  pushFrame { kind, result, base := (← get).stack.length }

def modifyFrame (depth : Nat) (g : Frame → Frame) : Build Unit :=
  modify fun s => { s with control := s.control.modify depth g }

def addPending (depth : Nat) (p : Pending) : Build Unit :=
  modifyFrame depth fun frame => { frame with pending := frame.pending.push p }

def ret : Build Unit := do
  let value ← popResult (← get).func.sig.result
  let _ ← leave (.ret value)

/-- A check for interrupts, where they are polled. -/
def interruptCheck (mode : InterruptMode) : Build Unit :=
  match mode with
  | .polling => append .interruptCheck none
  | .signal => return

end Build
end Wasmill.Ssa
