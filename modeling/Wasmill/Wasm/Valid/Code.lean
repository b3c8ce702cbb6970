import Wasmill.Wasm.Body
import Wasmill.Wasm.Valid.Operand

/-! Checking function bodies. -/
namespace Wasmill.Wasm
namespace Check

def i32s (n : Nat) : List Ty := List.replicate n (.num .i32)

def nums (types : List ValType) : List Ty := types.map .num

def funcTypeAt (index : Nat) : Check FuncType := do
  orReject "unknown type" ((← context).funcType? index)

def tableAt (index : Nat) : Check TableType := do
  orReject "unknown table" (← context).tables[index]?

/-- The type of indices into a table or memory. -/
def indexTy (wide : Bool) : ValType := if wide then .i64 else .i32

/-- The type of addresses in a memory. -/
def memoryTy (index : Nat) : Check ValType := do
  let m ← orReject "unknown memory" (← context).memories[index]?
  return indexTy m.bounds.wide

def blockTy : BlockType → Check FuncType
  | .empty => return ⟨[], []⟩
  | .value ty => do
    demand ((← context).tyOk ty) "invalid block type"
    return ⟨[], [ty]⟩
  | .func index => funcTypeAt index

/-- The type of addresses for an atomic access of `2 ^ log2` bytes. Any offset will do. -/
def atomicArg (arg : MemArg) (log2 : Nat) : Check ValType := do
  demand (arg.align = log2) "atomic instructions must always specify maximum alignment"
  memoryTy arg.memory

/-- The type of addresses for an access of `2 ^ log2` bytes. -/
def memArg (arg : MemArg) (log2 : Nat) : Check ValType := do
  let ty ← memoryTy arg.memory
  demand (arg.align ≤ log2) "alignment must not be larger than natural"
  demand (ty = .i64 ∨ arg.offset < UInt32.size) "offset out of range: must be <= 2**32"
  return ty

def call (ty : FuncType) : Check Unit := do
  popAll ty.params
  pushAll ty.results

/-- The results of the function being checked. -/
def results : Check (List Ty) := do
  match (← get).scopes.getLast? with
  | some frame => return frame.ty.results
  | none => beyondEnd

def ret : Check Unit := do
  popAll (← results)
  unreachable

/-- A call whose results are those of the function. -/
def tailCall (ty : FuncType) : Check Unit := do
  let own ← results
  let ctx ← context
  demand (ty.results.length = own.length && (ty.results.zip own).all fun (a, b) => ctx.tySub a b)
    "type mismatch: callee results"
  popAll ty.params
  unreachable

/-- The function type of an indirect call, after its index is taken. -/
def indirect (ty table : Nat) : Check FuncType := do
  let t ← tableAt table
  demand ((← context).refSub t.element .funcref)
    "indirect calls must go through a table of functions"
  popNum (indexTy t.bounds.wide)
  funcTypeAt ty

def callRef (ty : Nat) : Check FuncType := do
  let f ← funcTypeAt ty
  popRef ⟨true, .concrete ty⟩
  return f

def brTable (depths : List Nat) (default : Nat) : Check Unit := do
  popNum .i32
  let types ← label default
  depths.forM fun depth => do
    let other ← label depth
    demand (other.length = types.length) "br_table target labels have different number of types"
    probe other
  popAll types
  unreachable

def select : Check Unit := do
  popNum .i32
  let a ← popAny
  let b ← popAny
  match a, b with
  | .someRef _, _ | _, .someRef _ | .known (.ref _), _ | _, .known (.ref _) =>
    reject "type mismatch: select only takes integral types"
  | .bottom, o | o, .bottom => pushOperand o
  | .known s, .known t =>
    demand (s = t) "type mismatch: select operands have different types"
    push s

def localAt (index : Nat) : Check Ty := do
  orReject "unknown local" (← get).locals[index]?

/-- References that cannot be null have no default, and are set before they are read. -/
def hasDefault : Ty → Bool
  | .num _ => true
  | .ref r => r.nullable

/-- Notes that a local is set. -/
def assign (index : Nat) (ty : Ty) : Check Unit :=
  if hasDefault ty then return else modify fun s => { s with assigned := index :: s.assigned }

def globalAt (index : Nat) : Check ContentType := do
  orReject "unknown global" (← context).globals[index]?

def dataAt (index : Nat) : Check Unit := do
  match (← context).dataCount with
  | some count => demand (index < count) "unknown data segment"
  | none => reject "data count section required"

def elemAt (index : Nat) : Check RefType := do
  orReject "unknown elem segment" (← context).elems[index]?

/-- The narrower of two index types. -/
def narrower (a b : ValType) : ValType := if a = .i32 ∨ b = .i32 then .i32 else .i64

def clause (c : CatchClause) : Check Unit := do
  demand c.tag.isNone "unknown tag"
  let types ← label c.label
  if c.withRef then
    match types with
    | [ty] => demand ((← context).tySub (.ref ⟨false, .abstract false .exn⟩) ty) "type mismatch"
    | _ => reject "type mismatch: catch_all_ref label must have exactly one result type"
  else demand types.isEmpty "type mismatch: catch_all label must have no result types"

/-- The label of a branch that carries a reference: what comes before it, and the reference. -/
def refLabel (depth : Nat) : Check (List Ty × Ty) := do
  let types ← label depth
  match types.getLast? with
  | some ty => return (types.dropLast, ty)
  | none => reject "type mismatch: target has no label types"

/-- What is left of a type when a cast to another one failed. -/
def difference (a b : RefType) : RefType := ⟨a.nullable && !b.nullable, a.heap⟩

def castTypes (source target : RefType) : Check Unit := do
  let ctx ← context
  demand (ctx.heapKnown source.heap && ctx.heapKnown target.heap) "unknown type"
  demand (ctx.refSub target source) "type mismatch: cast target"

/-- The operand of a test for a type: a reference below the same topmost type. -/
def popCast (target : RefType) : Check Unit := do
  let ctx ← context
  demand (ctx.heapKnown target.heap) "unknown type"
  popRef ⟨true, ctx.topOf target.heap⟩

/-- Two references that can be compared: both shared or both not. -/
def popEqs : Check Unit := do
  let a ← popBelow .eq
  let b ← popBelow .eq
  match a.shared?, b.shared? with
  | some s, some t => demand (s = t) "type mismatch: one reference is shared"
  | _, _ => return

/-- The reference below `heap` that is on the stack, as one to `other`. -/
def convertRef (heap other : AbstractHeap) : Check Unit := do
  match ← popBelow heap with
  | .known (.ref r) => pushRef ⟨r.nullable, .abstract r.heap.shared other⟩
  | _ => pushOperand (.someRef (some other))

def extra : Extra → Check Unit
  | .plain pops pushes => do popAll (nums pops); pushAll (nums pushes)
  | .access arg log2 exact pops pushes => do
    let ty ← if exact then atomicArg arg log2 else memArg arg log2
    popAll (.num ty :: nums pops)
    pushAll (nums pushes)
  | .disabled => reject "support is not enabled"
  | .aggregate => reject "unknown type"
  | .throw _ => reject "unknown tag"
  | .throwRef => do
    popRef ⟨true, .abstract false .exn⟩
    unreachable
  | .tryTable ty clauses => do
    let ty ← blockTy ty
    popAll ty.params
    clauses.forM clause
    pushScope .block ty
  | .returnCall func => do
    tailCall (← orReject "unknown function" ((← context).typeOfFunc? func))
  | .returnCallIndirect ty table => do tailCall (← indirect ty table)
  | .callRef ty => do call (← callRef ty)
  | .returnCallRef ty => do tailCall (← callRef ty)
  | .tableGet table => do
    let t ← tableAt table
    popNum (indexTy t.bounds.wide)
    pushRef t.element
  | .tableSet table => do
    let t ← tableAt table
    popRef t.element
    popNum (indexTy t.bounds.wide)
  | .tableInit elem table => do
    let t ← tableAt table
    demand ((← context).refSub (← elemAt elem) t.element) "type mismatch"
    popAll (.num (indexTy t.bounds.wide) :: i32s 2)
  | .elemDrop elem => do let _ ← elemAt elem
  | .tableCopy dst src => do
    let d ← tableAt dst
    let s ← tableAt src
    demand ((← context).refSub s.element d.element) "type mismatch"
    let dTy := indexTy d.bounds.wide
    let sTy := indexTy s.bounds.wide
    popAll (nums [dTy, sTy, narrower dTy sTy])
  | .tableGrow table => do
    let t ← tableAt table
    let ty := indexTy t.bounds.wide
    popAll [.ref t.element, .num ty]
    pushNum ty
  | .tableSize table => do pushNum (indexTy (← tableAt table).bounds.wide)
  | .tableFill table => do
    let t ← tableAt table
    let ty := indexTy t.bounds.wide
    popAll [.num ty, .ref t.element, .num ty]
  | .memoryInit data memory => do
    let ty ← memoryTy memory
    dataAt data
    popAll (.num ty :: i32s 2)
  | .dataDrop data => dataAt data
  | .memoryCopy dst src => do
    let d ← memoryTy dst
    let s ← memoryTy src
    popAll (nums [d, s, narrower d s])
  | .memoryFill memory => do
    let ty ← memoryTy memory
    popAll (nums [ty, .i32, ty])
  | .refNull heap => do
    demand ((← context).refOk ⟨true, heap⟩) "unknown type"
    pushRef ⟨true, heap⟩
  | .refIsNull => do
    let _ ← popAnyRef
    pushNum .i32
  | .refFunc func => do
    let ctx ← context
    let ty ← orReject "unknown function" ctx.funcs[func]?
    demand (ctx.referable.contains func) "undeclared function reference"
    pushRef ⟨false, .concrete ty⟩
  | .refEq => do
    popEqs
    pushNum .i32
  | .refAsNonNull => do pushOperand (← popAnyRef).nonNull
  | .brOnNull depth => do
    let r ← popAnyRef
    popPush (← label depth)
    pushOperand r.nonNull
  | .brOnNonNull depth => do
    let (types, last) ← refLabel depth
    demand (match last with | .ref _ => true | .num _ => false) "type mismatch: no reference label"
    let r ← popAnyRef
    demand (matchesTy (← context) last r.nonNull) "type mismatch"
    popPush types
  | .refTest target => do
    popCast target
    pushNum .i32
  | .refCast target => do
    popCast target
    pushRef target
  | .brOnCast depth source target => do
    castTypes source target
    let (types, last) ← refLabel depth
    demand ((← context).tySub (.ref target) last) "type mismatch: casting"
    popRef source
    popPush types
    pushRef (difference source target)
  | .brOnCastFail depth source target => do
    castTypes source target
    let (types, last) ← refLabel depth
    demand ((← context).tySub (.ref (difference source target)) last) "type mismatch: casting"
    popRef source
    popPush types
    pushRef target
  | .anyConvertExtern => convertRef .external .any
  | .externConvertAny => convertRef .any .external
  | .refI31 => do
    popNum .i32
    pushRef ⟨false, .abstract false .i31⟩
  | .i31Get => do
    let _ ← popBelow .i31
    pushNum .i32
  | .arrayLen => do
    let _ ← popBelow .array
    pushNum .i32

/-- The binary logarithm of an access width. -/
def log2 (width : Nat) : Nat := width.log2

def operator : Operator → Check Unit
  | .unreachable => unreachable
  | .nop => return
  | .block ty => do
    let ty ← blockTy ty
    popAll ty.params
    pushScope .block ty
  | .loop ty => do
    let ty ← blockTy ty
    popAll ty.params
    pushScope .loop ty
  | .ifBlock ty => do
    let ty ← blockTy ty
    popNum .i32
    popAll ty.params
    pushScope .ifArm ty
  | .elseArm => do
    let frame ← popScope
    demand (frame.opened = .ifArm) "else found outside of an if block"
    pushScope .elseArm frame.ty
  | .close => do
    let frame ← popScope
    if frame.opened = .ifArm then
      pushScope .elseArm frame.ty
      let _ ← popScope
    pushAll frame.ty.results
    modify fun s =>
      if s.scopes.isEmpty && s.closedAt.isNone then { s with closedAt := some s.offset } else s
  | .br depth => do
    popAll (← label depth)
    unreachable
  | .brIf depth => do
    popNum .i32
    popPush (← label depth)
  | .brTable depths default => brTable depths.toList default
  | .ret => ret
  | .call func => do call (← orReject "unknown function" ((← context).typeOfFunc? func))
  | .callIndirect ty table => do call (← indirect ty table)
  | .drop => do let _ ← popAny
  | .select => select
  | .typedSelect ty => do
    demand ((← context).tyOk ty) "unknown type"
    popAll [ty, ty, .num .i32]
    push ty
  | .localGet index => do
    let ty ← localAt index
    demand (hasDefault ty || (← get).assigned.contains index) "uninitialized local"
    push ty
  | .localSet index => do
    let ty ← localAt index
    pop ty
    assign index ty
  | .localTee index => do
    let ty ← localAt index
    pop ty
    assign index ty
    push ty
  | .globalGet index => do push (← globalAt index).content
  | .globalSet index => do
    let g ← globalAt index
    demand g.mutable "global is immutable"
    pop g.content
  | .load kind arg => do
    popNum (← memArg arg (log2 kind.width))
    pushNum kind.resultTy
  | .store kind arg => do
    let ty ← memArg arg (log2 kind.width)
    popAll (nums [ty, kind.operandTy])
  | .memorySize memory => do pushNum (← memoryTy memory)
  | .memoryGrow memory => do
    let ty ← memoryTy memory
    popNum ty
    pushNum ty
  | .const v => pushNum v.ty
  | .unary op => do popNum op.operandTy; pushNum op.resultTy
  | .binary op => do popAll (nums [op.operandTy, op.operandTy]); pushNum op.resultTy
  | .convert op => do popNum op.operandTy; pushNum op.resultTy
  | .splat shape => do popNum shape.scalarTy; pushNum .v128
  | .extractLane shape _ _ => do popNum .v128; pushNum shape.scalarTy
  | .replaceLane shape _ => do popAll (nums [.v128, shape.scalarTy]); pushNum .v128
  | .shuffle _ => do popAll (nums [.v128, .v128]); pushNum .v128
  | .extra _ what => extra what

/-- Runs of locals, after the parameters. -/
def localRuns : Nat → Array Ty → Cursor → Context → Except Error (Array Ty × Cursor)
  | 0, locals, c, _ => .ok (locals, c)
  | n + 1, locals, c, ctx =>
    match Body.localRun c with
    | (.error e, _) => .error e
    | (.ok (count, ty), next) =>
      if !ctx.tyOk ty then rejectAt c.offset "invalid local type"
      else if locals.size + count > 50000 then rejectAt c.offset "too many locals"
      else localRuns n (locals ++ Array.replicate count ty) next ctx

/-- Operators to the end of the body, each of which takes at least one of the `fuel` bytes. -/
def operators : (fuel : Nat) → Cursor → Check Cursor
  | 0, c => return c
  | fuel + 1, c => do
    if c.atEnd then return c
    else
      modify fun s => { s with offset := c.offset }
      let (op, next) := Operator.read c
      operator (← op)
      operators fuel next

/-- The body ends with the `end` of the function. -/
def finish (c : Cursor) : Check Unit := do
  let s ← get
  if !s.scopes.isEmpty then reject "control frames remain at end of function: END opcode expected"
  else if s.closedAt ≠ some (c.offset - 1) then
    throw (.invalid .operatorsAfterEnd c.offset)
  else return

end Check

/-- Checks the body of a function of the given type. -/
def Context.checkBody (ctx : Context) (ty : FuncType) (body : Cursor) : Except Error Unit := do
  match Read.u32 body with
  | (.error e, _) => throw e
  | (.ok runs, c) =>
    let (locals, c) ← Check.localRuns runs ty.params.toArray c ctx
    let code : Check Unit := do
      Check.finish (← Check.operators (c.left + 1) c)
    let whole : Scope :=
      { opened := .block, ty := ⟨[], ty.results⟩, height := 0, unreachable := false,
        assigned := [] }
    let params := List.range ty.params.length
    let _ ← code.run
        { ctx, locals, scopes := [{ whole with assigned := params }], assigned := params }
    return ()

end Wasmill.Wasm
