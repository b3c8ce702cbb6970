import Wasmill.Wasm.Opcode

/-! What the sections of a binary module hold. -/
namespace Wasmill.Wasm

/-- A constant expression: its operators with their module offsets, without the last `end`. -/
structure ConstExpr where
  ops : List (Operator × Nat)

/-- Operators up to the first `end`, at most as many as asked for. -/
def ConstExpr.readOps : Nat → List (Operator × Nat) → Read ConstExpr
  | 0, _ => Read.reject "unexpected end"
  | fuel + 1, ops => do
    let place ← Read.offset
    match ← Operator.read with
    | .close => return ⟨ops.reverse⟩
    | op => readOps fuel ((op, place) :: ops)

def ConstExpr.read : Read ConstExpr := do
  let c ← Read.cursor
  readOps (c.left + 1) []

/-- The type of something that is imported. -/
inductive ImportType
  | func (ty : Nat)
  | table (ty : TableType)
  | memory (ty : MemoryType)
  | global (ty : ContentType)
  | tag (ty : Nat)
  deriving Inhabited

structure ImportEntry where
  module : String
  name : String
  ty : ImportType
  deriving Inhabited

def ImportType.read : Read ImportType := do
  match ← Read.byte with
  | 0 => return .func (← Read.u32)
  | 1 => return .table (← TableType.read)
  | 2 => return .memory (← MemoryType.read)
  | 3 => return .global (← ContentType.read)
  | 4 => return .tag (← readTag)
  | _ => Read.reject "invalid leading byte in import"

def ImportEntry.read : Read ImportEntry := do
  let module ← Read.string
  let name ← Read.string
  return { module, name, ty := ← ImportType.read }

structure TableEntry where
  ty : TableType
  init : Option ConstExpr

def TableEntry.read : Read TableEntry := do
  if (← Read.peek) = 0x40 then
    let _ ← Read.byte
    if (← Read.byte) ≠ 0 then Read.reject "invalid table encoding"
    else
      let ty ← TableType.read
      return ⟨ty, some (← ConstExpr.read)⟩
  else return ⟨← TableType.read, none⟩

structure GlobalEntry where
  ty : ContentType
  init : ConstExpr

def GlobalEntry.read : Read GlobalEntry := do
  let ty ← ContentType.read
  return ⟨ty, ← ConstExpr.read⟩

inductive ExternalKind
  | func
  | table
  | memory
  | global
  | tag
  deriving DecidableEq, Inhabited

def ExternalKind.read : Read ExternalKind := do
  match ← Read.byte with
  | 0 => return .func
  | 1 => return .table
  | 2 => return .memory
  | 3 => return .global
  | 4 => return .tag
  | _ => Read.reject "invalid leading byte in external kind"

structure ExportEntry where
  name : String
  kind : ExternalKind
  index : Nat
  deriving Inhabited

def ExportEntry.read : Read ExportEntry := do
  let name ← Read.string
  let kind ← ExternalKind.read
  return ⟨name, kind, ← Read.u32⟩

/-- Whether a segment is written at instantiation, and where to. -/
inductive SegmentMode
  | active (index : Nat) (offset : ConstExpr)
  | inactive

inductive ElemItems
  | funcs (indices : Array Nat)
  | exprs (ty : RefType) (exprs : Array ConstExpr)

structure ElemEntry where
  mode : SegmentMode
  items : ElemItems

/-- The type of the items, where the flags say that it is written. -/
def ElemEntry.readType (exprs : Bool) : Read RefType := do
  if exprs then RefType.read
  else
    match ← ExternalKind.read with
    | .func => return .funcref
    | _ => Read.reject "only the function external type is supported in elem segment"

def ElemEntry.read : Read ElemEntry := do
  let flags ← Read.u32
  if flags > 7 then Read.reject "invalid flags byte in element segment"
  else
    let mode ←
      if flags.testBit 0 then pure SegmentMode.inactive
      else do
        let table ← if flags.testBit 1 then Read.u32 else pure 0
        pure (.active table (← ConstExpr.read))
    let exprs := flags.testBit 2
    let ty ← if flags % 4 = 0 then pure RefType.funcref else readType exprs
    let count ← Read.u32
    if exprs then return ⟨mode, .exprs ty (← Read.many ConstExpr.read count #[])⟩
    else return ⟨mode, .funcs (← Read.many Read.u32 count #[])⟩

structure DataEntry where
  mode : SegmentMode
  bytes : ByteArray

def DataEntry.read : Read DataEntry := do
  let flags ← Read.u32
  let mode ←
    match flags with
    | 0 => do let offset ← ConstExpr.read; pure (SegmentMode.active 0 offset)
    | 1 => pure .inactive
    | 2 => do let memory ← Read.u32; pure (SegmentMode.active memory (← ConstExpr.read))
    | _ => Read.reject "invalid flags byte in data segment"
  let content ← Read.sized
  return ⟨mode, content.rest⟩

/-- A section that is a list of items, and nothing after them. -/
def readItems (item : Read α) (c : Cursor) : Except Error (Array α) :=
  Read.answer (do
    let count ← Read.u32
    let items ← Read.many item count #[]
    Read.finished
    return items) c

/-- A section that is a single number. -/
def readNumber (c : Cursor) : Except Error Nat :=
  Read.answer (do
    let n ← Read.u32
    Read.finished
    return n) c

end Wasmill.Wasm
