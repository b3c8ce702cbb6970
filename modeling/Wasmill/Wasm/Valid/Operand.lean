import Wasmill.Wasm.Valid.Context

/-! The operand stack and the control stack of checking code.

After a jump that is always taken, the rest of a frame is unreachable, and operands of any type can
be taken from below its base. -/
namespace Wasmill.Wasm

/-- The type of an operand, as far as it is known. -/
inductive Operand
  | bottom
  /-- Some reference, below the given heap type if one is known. -/
  | someRef (below : Option AbstractHeap)
  | known (ty : Ty)
  deriving DecidableEq, Inhabited

/-- The operand once it is known not to be null. -/
def Operand.nonNull : Operand → Operand
  | .known (.ref r) => .known (.ref { r with nullable := false })
  | o => o

/-- Whether the reference is one to a shared object, if it is known what it refers to. -/
def Operand.shared? : Operand → Option Bool
  | .known (.ref r) => some r.heap.shared
  | _ => none

/-- How a frame was opened, as far as it matters for what may come. -/
inductive Opened
  | block
  | ifArm
  | elseArm
  | loop
  deriving DecidableEq, Inhabited

structure Scope where
  opened : Opened
  ty : FuncType
  /-- The operands below the frame. -/
  height : Nat
  unreachable : Bool
  /-- The locals that were set when the frame was opened. -/
  assigned : List Nat
  deriving Inhabited

structure Checker where
  ctx : Context
  locals : Array Ty
  /-- The topmost operand last. -/
  operands : Array Operand := #[]
  scopes : List Scope
  /-- Locals without a default that have been set. -/
  assigned : List Nat := []
  /-- The module offset of the `end` that closed the function. -/
  closedAt : Option Nat := none
  /-- The module offset of the operator at hand. -/
  offset : Nat := 0

abbrev Check := StateT Checker (Except Error)

namespace Check

def reject (reason : String) : Check α := do throw (.invalid (.rejected reason) (← get).offset)

def demand (ok : Bool) (reason : String) : Check Unit := if ok then return else reject reason

/-- Refuses an operator after the end of the function. -/
def beyondEnd : Check α := do throw (.invalid .operatorsAfterEnd (← get).offset)

def context : Check Context := return (← get).ctx

def orReject (reason : String) : Option α → Check α
  | some a => return a
  | none => reject reason

/-- The innermost frame. -/
def scope : Check Scope := do
  match (← get).scopes with
  | s :: _ => return s
  | [] => beyondEnd

def pushOperand (o : Operand) : Check Unit :=
  modify fun s => { s with operands := s.operands.push o }

def push (ty : Ty) : Check Unit := pushOperand (.known ty)

def pushNum (ty : ValType) : Check Unit := push (.num ty)

def pushRef (r : RefType) : Check Unit := push (.ref r)

def pushAll (types : List Ty) : Check Unit := types.forM push

/-- The topmost operand of the innermost frame, whatever it is. -/
def popAny : Check Operand := do
  let frame ← scope
  let s ← get
  if s.operands.size = frame.height then
    if frame.unreachable then return .bottom else reject "type mismatch: nothing on stack"
  else
    match s.operands.back? with
    | some o =>
      set { s with operands := s.operands.pop }
      return o
    | none => reject "type mismatch: nothing on stack"

/-- Whether an operand can stand where a type is asked for. -/
def matchesTy (ctx : Context) (ty : Ty) : Operand → Bool
  | .bottom => true
  | .someRef below =>
    match ty, below with
    | .ref _, none => true
    | .ref r, some heap => ctx.refSub ⟨false, .abstract r.heap.shared heap⟩ r
    | .num _, _ => false
  | .known known => ctx.tySub known ty

def popTy (ty : Ty) : Check Operand := do
  let o ← popAny
  demand (matchesTy (← context) ty o) "type mismatch"
  return o

def pop (ty : Ty) : Check Unit := do let _ ← popTy ty

def popNum (ty : ValType) : Check Unit := pop (.num ty)

def popRef (r : RefType) : Check Unit := pop (.ref r)

/-- Operands of the given types, the last of them topmost. -/
def popAll (types : List Ty) : Check Unit := types.reverse.forM pop

/-- Any reference. -/
def popAnyRef : Check Operand := do
  match ← popAny with
  | .bottom => return .someRef none
  | .known (.num _) => reject "type mismatch: expected ref"
  | o => return o

/-- A reference below a heap type, or below its shared form if the operand is shared. -/
def popBelow (heap : AbstractHeap) : Check Operand := do
  let o ← popAnyRef
  let bound : RefType := ⟨true, .abstract (o.shared?.getD false) heap⟩
  demand (matchesTy (← context) (.ref bound) o) "type mismatch"
  return o

/-- From here to the end of the innermost frame nothing is reached. -/
def unreachable : Check Unit := do
  let frame ← scope
  modify fun s =>
    { s with
      operands := s.operands.shrink frame.height
      scopes := { frame with unreachable := true } :: s.scopes.tail }

def pushScope (opened : Opened) (ty : FuncType) : Check Unit := do
  modify fun s =>
    { s with scopes :=
        { opened, ty, height := s.operands.size, unreachable := false, assigned := s.assigned }
          :: s.scopes }
  pushAll ty.params

def popScope : Check Scope := do
  let frame ← scope
  popAll frame.ty.results
  let s ← get
  if s.operands.size ≠ frame.height then reject "type mismatch: values remaining on stack"
  else
    set { s with scopes := s.scopes.tail, assigned := frame.assigned }
    return frame

/-- The frame that a branch goes to. -/
def label (depth : Nat) : Check (List Ty) := do
  match (← get).scopes with
  | [] => beyondEnd
  | scopes =>
    match scopes[depth]? with
    | some frame => return if frame.opened = .loop then frame.ty.params else frame.ty.results
    | none => reject "unknown label: branch depth too large"

/-- Takes operands and puts them back as what they were taken for. -/
def popPush (types : List Ty) : Check Unit := do
  popAll types
  pushAll types

/-- Looks whether operands of the given types are there. -/
def probe (types : List Ty) : Check Unit := do
  let taken ← types.reverse.mapM popTy
  taken.reverse.forM pushOperand

end Check
end Wasmill.Wasm
