import Wasmill.Wasm.Cursor

/-! The types a binary module can write down.

There are more of them than are compiled: references, aggregates and recursion groups are read and
checked before they are refused. -/
namespace Wasmill.Wasm

/-- Heap types that are not declared by the module. -/
inductive AbstractHeap
  | func
  | external
  | any
  | nil
  | noExternal
  | noFunc
  | eq
  | struct
  | array
  | i31
  | exn
  | noExn
  | cont
  | noCont
  deriving DecidableEq, Inhabited

namespace AbstractHeap

def ofByte? : Nat → Option AbstractHeap
  | 0x70 => some .func
  | 0x6f => some .external
  | 0x6e => some .any
  | 0x71 => some .nil
  | 0x72 => some .noExternal
  | 0x73 => some .noFunc
  | 0x6d => some .eq
  | 0x6b => some .struct
  | 0x6a => some .array
  | 0x6c => some .i31
  | 0x69 => some .exn
  | 0x74 => some .noExn
  | 0x68 => some .cont
  | 0x75 => some .noCont
  | _ => none

def name : AbstractHeap → String
  | .func => "func"
  | .external => "extern"
  | .any => "any"
  | .nil => "none"
  | .noExternal => "noextern"
  | .noFunc => "nofunc"
  | .eq => "eq"
  | .struct => "struct"
  | .array => "array"
  | .i31 => "i31"
  | .exn => "exn"
  | .noExn => "noexn"
  | .cont => "cont"
  | .noCont => "nocont"

/-- The name of the nullable reference. -/
def refName : AbstractHeap → String
  | .nil => "nullref"
  | .noExternal => "nullexternref"
  | .noFunc => "nullfuncref"
  | .noExn => "nullexnref"
  | .noCont => "nullcontref"
  | h => h.name ++ "ref"

end AbstractHeap

inductive Heap
  | abstract (shared : Bool) (heap : AbstractHeap)
  | concrete (index : Nat)
  deriving DecidableEq, Inhabited

/-- Whether the objects are shared between threads. Declared types are not. -/
def Heap.shared : Heap → Bool
  | .abstract shared _ => shared
  | .concrete _ => false

structure RefType where
  nullable : Bool
  heap : Heap
  deriving DecidableEq, Inhabited

namespace RefType

def funcref : RefType := ⟨true, .abstract false .func⟩

def text (r : RefType) : String :=
  match r.heap with
  | .abstract shared heap =>
    if shared then
      "(ref " ++ (if r.nullable then "null " else "") ++ "(shared " ++ heap.name ++ "))"
    else if r.nullable then heap.refName
    else "(ref " ++ heap.name ++ ")"
  | .concrete index => "(ref " ++ (if r.nullable then "null " else "") ++ s!"(module {index}))"

end RefType

/-- The type of an operand, a local or a global. -/
inductive Ty
  | num (ty : ValType)
  | ref (ty : RefType)
  deriving DecidableEq, Inhabited

/-- The type as one that can be compiled. -/
def Ty.compiled : Ty → Except Error ValType
  | .num ty => .ok ty
  | .ref _ => .error (.unsupported .referenceType)

structure FuncType where
  params : List Ty
  results : List Ty
  deriving DecidableEq, Inhabited

/-- The type as a signature that can be compiled: no references, at most one result. -/
def FuncType.compiled (ty : FuncType) : Except Error Sig := do
  let params ← ty.params.mapM Ty.compiled
  match ty.results with
  | [] => return ⟨params, none⟩
  | [result] => return ⟨params, some (← result.compiled)⟩
  | _ => throw (.unsupported .multiValue)

/-- What an array element or a structure field holds. -/
inductive Storage
  | i8
  | i16
  | val (ty : Ty)
  deriving DecidableEq, Inhabited

structure Field where
  storage : Storage
  mutable : Bool
  deriving DecidableEq, Inhabited

inductive Composite
  | func (ty : FuncType)
  | array (element : Field)
  | struct (fields : List Field)
  | cont (index : Nat)
  deriving DecidableEq, Inhabited

structure SubType where
  final : Bool
  parent : Option Nat
  shared : Bool
  body : Composite
  deriving DecidableEq, Inhabited

/-- The bounds of a table or a memory, with what their flags say. -/
structure SizeBounds where
  wide : Bool
  shared : Bool
  initial : Nat
  maximum : Option Nat
  deriving DecidableEq, Inhabited

structure TableType where
  element : RefType
  bounds : SizeBounds
  deriving DecidableEq, Inhabited

structure MemoryType where
  bounds : SizeBounds
  pageSizeLog2 : Option Nat
  deriving DecidableEq, Inhabited

structure ContentType where
  content : Ty
  mutable : Bool
  shared : Bool
  deriving DecidableEq, Inhabited

/-! ### Reading types -/

/-- The number of types that can be told apart. -/
def typeIndexSpace : Nat := 0x100000

def AbstractHeap.read : Read AbstractHeap := do
  let place ← Read.offset
  match ofByte? (← Read.byte) with
  | some heap => return heap
  | none => Read.rejectAt place "invalid abstract heap type"

/-- An abstract heap type, with a byte before it if it is shared. -/
def Heap.readAbstract : Read Heap := do
  let shared := (← Read.peek) = 0x65
  if shared then
    let _ ← Read.byte
  return .abstract shared (← AbstractHeap.read)

/-- A number that is not negative is the index of a declared type. All abstract heap types are
negative numbers of one byte. -/
def Heap.read : Read Heap := do
  if (← Read.lookahead Read.s33) < 0 then readAbstract
  else
    let place ← Read.offset
    let index ← Read.s33
    if index ≥ typeIndexSpace then Read.rejectAt place "type index is out of bounds"
    else return .concrete index.toNat

/-- A heap type on its own stands for the references to it that may be null. -/
def RefType.read : Read RefType := do
  let b ← Read.peek
  if b = 0x63 ∨ b = 0x64 then
    let _ ← Read.byte
    return ⟨b = 0x63, ← Heap.read⟩
  else return ⟨true, ← Heap.read⟩

/-- The numeric types by their bytes. -/
def numByte? : Nat → Option ValType
  | 0x7f => some .i32
  | 0x7e => some .i64
  | 0x7d => some .f32
  | 0x7c => some .f64
  | 0x7b => some .v128
  | _ => none

def Ty.read : Read Ty := do
  match numByte? (← Read.peek) with
  | some ty =>
    let _ ← Read.byte
    return .num ty
  | none => return .ref (← RefType.read)

/-- Whether a byte starts a type that is not just the index of a declared one. -/
def startsTy (b : Nat) : Bool :=
  (numByte? b).isSome || b == 0x63 || b == 0x64 || b == 0x65 || (AbstractHeap.ofByte? b).isSome

def FuncType.read : Read FuncType := do
  let params ← Read.vec 1000 Ty.read
  let results ← Read.vec 1000 Ty.read
  return ⟨params.toList, results.toList⟩

def Field.read : Read Field := do
  let storage ←
    match ← Read.peek with
    | 0x78 => do let _ ← Read.byte; pure Storage.i8
    | 0x77 => do let _ ← Read.byte; pure Storage.i16
    | _ => do let ty ← Ty.read; pure (Storage.val ty)
  match ← Read.byte with
  | 0 => return ⟨storage, false⟩
  | 1 => return ⟨storage, true⟩
  | _ => Read.reject "invalid mutability byte"

def Composite.read (opcode : Nat) : Read Composite := do
  match opcode with
  | 0x60 => return .func (← FuncType.read)
  | 0x5e => return .array (← Field.read)
  | 0x5f => return .struct (← Read.vec 10000 Field.read).toList
  | 0x5d => return .cont (← Read.u32)
  | _ => Read.reject "invalid leading byte in type"

/-- A composite type, after the byte that it starts with. -/
def SubType.readBody (final : Bool) (parent : Option Nat) (opcode : Nat) : Read SubType := do
  if opcode = 0x65 then
    let inner ← Read.byte
    return ⟨final, parent, true, ← Composite.read inner⟩
  else
    return ⟨final, parent, false, ← Composite.read opcode⟩

def SubType.read : Read SubType := do
  let b ← Read.byte
  if b = 0x4f ∨ b = 0x50 then
    let place ← Read.offset
    let parents ← Read.vec 1 Read.u32
    if parents.any (· ≥ typeIndexSpace) then Read.rejectAt place "type index is out of bounds"
    else
      let opcode ← Read.byte
      readBody (b = 0x4f) parents[0]? opcode
  else readBody true none b

/-- A recursion group; a type on its own is a group of one. -/
def SubType.readGroup : Read (List SubType) := do
  if (← Read.peek) = 0x4e then
    let _ ← Read.byte
    let types ← Read.vec 1000000 SubType.read
    return types.toList
  else return [← SubType.read]

/-- Bounds under flags of which `most` is the largest. -/
def SizeBounds.readFlags (most : Nat) : Read (Nat × SizeBounds) := do
  let place ← Read.offset
  let flags ← Read.byte
  if flags > most then Read.rejectAt place "invalid limits flags"
  else
    let wide := flags.testBit 2
    let size := if wide then Read.u64 else Read.u32
    let initial ← size
    let maximum ← if flags.testBit 0 then some <$> size else pure none
    return (flags, ⟨wide, flags.testBit 1, initial, maximum⟩)

def TableType.read : Read TableType := do
  let element ← RefType.read
  let (_, bounds) ← SizeBounds.readFlags 7
  return ⟨element, bounds⟩

def MemoryType.read : Read MemoryType := do
  let (flags, bounds) ← SizeBounds.readFlags 15
  let pageSizeLog2 ← if flags.testBit 3 then some <$> Read.u32 else pure none
  return ⟨bounds, pageSizeLog2⟩

def ContentType.read : Read ContentType := do
  let content ← Ty.read
  let flags ← Read.byte
  if flags > 3 then Read.reject "malformed mutability"
  else return ⟨content, flags.testBit 0, flags.testBit 1⟩

/-- The function type of a tag. -/
def readTag : Read Nat := do
  if (← Read.byte) ≠ 0 then Read.reject "invalid tag attributes"
  else Read.u32

end Wasmill.Wasm
