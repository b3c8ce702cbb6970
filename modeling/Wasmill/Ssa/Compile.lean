import Wasmill.Ssa.Control
import Wasmill.Wasm.Body

/-! From a function body to static single assignment form.

`Function.ofBody` is one pass over the operators. In dead code only the nesting of `block`, `loop`
and `if` is followed, until a frame ends that live code branches to. -/
namespace Wasmill.Ssa
open Wasm

namespace Build

/-- The result type of a block; blocks that take operands are not compiled. -/
def blockResult : BlockType → Build (Option ValType)
  | .empty => return none
  | .value ty => do
    let ty ← ty.compiled
    return some ty
  | .func _ => throw (.unsupported .blockTypes)

/-- Binds the locals: parameters first, then zeros, one for each type. -/
def declareLocals (limits : Limits) (runs : List (Nat × ValType)) : Build Unit := do
  let s ← get
  let params := (s.func.block 0).params
  let total := runs.foldl (fun n run => n + run.1) params.size
  if total > limits.locals then throw (.limit .locals limits.locals)
  else
    modify fun s => { s with locals := params, localTypes := s.func.sig.params.toArray }
    declare runs fun _ => none
where
  declare : List (Nat × ValType) → (ValType → Option Value) → Build Unit
    | [], _ => return
    | (count, ty) :: rest, zeros => do
      let filler ←
        match zeros ty with
        | some v => pure v
        | none => value (.const 0) ty
      modify fun s =>
        { s with
          locals := s.locals ++ Array.replicate count filler
          localTypes := s.localTypes ++ Array.replicate count ty }
      declare rest fun t => if t = ty then some filler else zeros t

/-- The static offset of a memory access. -/
def memoryOffset (env : Env) (arg : MemArg) : Build Nat := do
  if env.memory.isNone then invalid .accessWithoutMemory
  else if arg.offset ≥ UInt32.size then throw (.unsupported (.wideOffset arg.offset))
  else return arg.offset

def checkMemory (env : Env) (memory : Nat) : Build Unit := do
  if memory ≠ 0 then throw (.unsupported .multipleMemories)
  else if env.memory.isNone then invalid .memoryInstructionWithoutMemory
  else return

def checkLane (shape : LaneShape) (lane : Nat) : Build Unit := do
  if lane < shape.lanes then return else invalid (.laneRange lane shape.name)

def globalAt (env : Env) (index : Nat) : Build GlobalDesc := do
  match env.globals[index]? with
  | some g => return g
  | none => invalid (.unknownGlobal index)

def setLocal (index : Nat) (v : Value) : Build Unit := do
  let s ← get
  if index < s.locals.size then set { s with locals := s.locals.setIfInBounds index v }
  else broken (.unknownLocal index)

def select : Build Unit := do
  let cond ← pop
  let ifFalse ← pop
  let ifTrue ← pop
  pushValue (.select cond ifTrue ifFalse) ((← get).func.valueTy ifTrue)

def call (env : Env) (callee : Nat) : Build Unit := do
  match env.sigOf? callee with
  | none => invalid (.unknownFunction callee)
  | some sig =>
    let args ← popMany sig.params.length
    match env.funcImports[callee]? with
    | some desc => emit (.callImport callee desc.record args) sig.result
    | none => emit (.call callee args) sig.result

/-- Tables do not grow, so every call through an empty one of the module's own traps. -/
def callIndirect (env : Env) (ty table : Nat) : Build Unit := do
  match env.sigs[ty]? with
  | none => invalid (.unknownType ty)
  | some sig =>
    match env.tables[table]? with
    | none => invalid (.unknownTable table)
    | some desc =>
      let index ← pop
      let args ← popMany sig.params.length
      if desc.source.isNone ∧ desc.bounds.initial = 0 then
        let _ ← leave (.trap .tableOutOfBounds)
      else
        emit (.callIndirect ty desc.handle (env.sigToken ty) index args) sig.result

/-- An operator in live code. -/
def live (env : Env) : Operator → Build Unit
  | .unreachable => do let _ ← leave (.trap .unreachableCodeReached)
  | .nop => return
  | .block ty => do openFrame .block (← blockResult ty)
  | .loop ty => do enterLoop env.interruptMode (← blockResult ty)
  | .ifBlock ty => do enterIf (← blockResult ty)
  | .elseArm => elseArm
  | .close => close
  | .br depth => branch depth
  | .brIf depth => branchIf depth
  | .brTable depths default => branchTable depths default
  | .ret => ret
  | .call callee => call env callee
  | .callIndirect ty table => callIndirect env ty table
  | .drop => do let _ ← pop
  | .select | .typedSelect _ => select
  | .localGet index => do
    match (← get).locals[index]? with
    | some v => push v
    | none => invalid (.unknownLocal index)
  | .localSet index => do setLocal index (← pop)
  | .localTee index => do setLocal index (← peek)
  | .globalGet index => do
    let g ← globalAt env index
    pushValue (.globalGet g.ty.content g.place) g.ty.content
  | .globalSet index => do
    let g ← globalAt env index
    append (.globalSet g.ty.content g.place (← pop)) none
  | .load kind arg => do
    let offset ← memoryOffset env arg
    pushValue (.load kind (← pop) offset) kind.resultTy
  | .store kind arg => do
    let offset ← memoryOffset env arg
    let v ← pop
    append (.store kind (← pop) v offset) none
  | .memorySize memory => do
    checkMemory env memory
    pushValue .memorySize .i32
  | .memoryGrow memory => do
    checkMemory env memory
    pushValue (.memoryGrow (← pop)) .i32
  | .const v => pushValue (.const v.toSlot) v.ty
  | .unary op => do pushValue (.unary op (← pop)) op.resultTy
  | .binary op => do
    let b ← pop
    pushValue (.binary op (← pop) b) op.resultTy
  | .convert op => do pushValue (.convert op (← pop)) op.resultTy
  | .splat shape => do pushValue (.splat shape (← pop)) .v128
  | .extractLane shape signed lane => do
    checkLane shape lane
    pushValue (.extractLane shape signed lane (← pop)) shape.scalarTy
  | .replaceLane shape lane => do
    checkLane shape lane
    let v ← pop
    pushValue (.replaceLane shape lane (← pop) v) .v128
  | .shuffle lanes => do
    match lanes.find? (· ≥ 32) with
    | some lane => invalid (.shuffleRange lane)
    | none =>
      let b ← pop
      pushValue (.shuffle (← pop) b lanes) .v128
  | .extra name _ => throw (.unsupported (.operator name))

/-- An operator in dead code. -/
def dead : Operator → Build Unit
  | .block _ => openFrame .block none
  | .loop _ => openFrame (.loop none) none
  | .ifBlock _ => openFrame (.ifBlock none #[]) none
  | .elseArm => elseArm
  | .close => close
  | _ => return

def operator (env : Env) (op : Operator) : Build Unit := do
  if ← isDead then dead op else live env op

/-- Module offsets are kept in 32 bits. -/
def setSrcloc (offset : Nat) : Build Unit :=
  modify fun s => { s with srcloc := offset % UInt32.size }

/-- Operators up to the end of the function, each of which takes at least one of the `fuel` bytes.
-/
def operators (env : Env) : (fuel : Nat) → Body → Build Body
  | 0, body => return body
  | fuel + 1, body => do
    if (← get).control.isEmpty then return body
    else
      let (op, next) := body.readOp
      let op ← op
      setSrcloc body.offset
      operator env op
      operators env fuel next

end Build

/-- Compiles the body of a function of the given signature. -/
def Function.ofBody (env : Env) (sig : Sig) (body : Body) : Except Error Function := do
  let start := body.offset % UInt32.size
  let func := { Function.ofSig sig with srcloc := start }
  let build : Build Body := do
    let (runs, body) := body.readLocals
    let runs ← runs
    Build.declareLocals env.limits runs.toList
    Build.interruptCheck env.interruptMode
    Build.pushFrame { kind := .function, result := sig.result, base := 0 }
    Build.operators env (body.start.left + 1) body
  let (body, s) ← build.run
    { func, current := some 0, srcloc := start, locals := #[], localTypes := #[], stack := [],
      control := [] }
  if body.isDone then return s.func
  else throw (.invalid .operatorsAfterEnd body.offset)

end Wasmill.Ssa
