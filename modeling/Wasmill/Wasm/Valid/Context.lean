import Wasmill.Wasm.Section

/-! What is known of a module while its sections are checked one after another, and how its types
are ordered.

Types of equal recursion groups are one type. Each type has a number, the same for equal types;
within a group types are compared by their place in the group, across groups by number. -/
namespace Wasmill.Wasm

/-- A declared type with its number. -/
structure TypeEntry where
  ty : SubType
  number : Nat
  deriving Inhabited

/-- A recursion group that was seen before, in comparable form, with the number of its first type.
-/
structure KnownGroup where
  form : List SubType
  first : Nat

structure Context where
  types : Array TypeEntry := #[]
  groups : List KnownGroup := []
  /-- How many numbers are taken. -/
  numbers : Nat := 0
  /-- The type of every function. -/
  funcs : Array Nat := #[]
  tables : Array TableType := #[]
  memories : Array MemoryType := #[]
  globals : Array ContentType := #[]
  tags : Array Nat := #[]
  elems : Array RefType := #[]
  exportNames : List String := []
  /-- Functions that code may take references of. -/
  referable : List Nat := []
  /-- The number of bodies to come, once functions are declared. -/
  bodies : Option Nat := none
  dataCount : Option Nat := none
  dataSegments : Nat := 0
  /-- The size of the types of all imports and exports together. -/
  interfaceSize : Nat := 1
  /-- The section seen last, as a place in the order of sections. -/
  order : Nat := 0

/-- A check of a module; what is refused is refused at a module offset. -/
def rejectAt (offset : Nat) (reason : String) : Except Error α :=
  .error (.invalid (.rejected reason) offset)

/-- Refuses unless something holds. -/
def require (ok : Bool) (reason : String) : Except Error Unit :=
  if ok then .ok () else rejectAt 0 reason

namespace AbstractHeap

/-- The order of heap types, each with those right above it. -/
def above : AbstractHeap → List AbstractHeap
  | .nil => [.i31, .struct, .array, .eq, .any]
  | .i31 | .struct | .array => [.eq, .any]
  | .eq => [.any]
  | .noExternal => [.external]
  | .noFunc => [.func]
  | .noExn => [.exn]
  | .noCont => [.cont]
  | .any | .external | .func | .exn | .cont => []

def sub (a b : AbstractHeap) : Bool := a == b || a.above.contains b

/-- The topmost type above it. -/
def top : AbstractHeap → AbstractHeap
  | .nil | .i31 | .struct | .array | .eq | .any => .any
  | .noExternal | .external => .external
  | .noFunc | .func => .func
  | .noExn | .exn => .exn
  | .noCont | .cont => .cont

end AbstractHeap

namespace Context

def bodyOf? (ctx : Context) (index : Nat) : Option Composite :=
  (ctx.types[index]?).map fun entry => entry.ty.body

def numberOf (ctx : Context) (index : Nat) : Option Nat := ctx.types[index]?.map (·.number)

/-- Whether the type with number `a` is declared below the one with number `b`, going up at most
`steps` parents. -/
def below (ctx : Context) (b : Nat) : (steps a : Nat) → Bool
  | 0, _ => false
  | steps + 1, a =>
    a == b ||
      match ctx.types.find? (·.number = a) with
      | some entry =>
        match entry.ty.parent.bind ctx.numberOf with
        | some parent => ctx.below b steps parent
        | none => false
      | none => false

/-- The abstract type that a declared type stands under. -/
def kindOf (ctx : Context) (index : Nat) : AbstractHeap :=
  match ctx.bodyOf? index with
  | some (.array _) => .array
  | some (.struct _) => .struct
  | some (.cont _) => .cont
  | _ => .func

/-- The abstract type under a declared type. -/
def bottomOf (ctx : Context) (index : Nat) : AbstractHeap :=
  match ctx.kindOf index with
  | .func => .noFunc
  | .cont => .noCont
  | _ => .nil

def heapSub (ctx : Context) : Heap → Heap → Bool
  | .abstract s a, .abstract t b => s == t && a.sub b
  | .abstract s a, .concrete i => !s && a == ctx.bottomOf i
  | .concrete i, .abstract s a => !s && (ctx.kindOf i).sub a
  | .concrete i, .concrete j =>
    match ctx.numberOf i, ctx.numberOf j with
    | some a, some b => ctx.below b 64 a
    | _, _ => false

def refSub (ctx : Context) (a b : RefType) : Bool :=
  (!a.nullable || b.nullable) && ctx.heapSub a.heap b.heap

def tySub (ctx : Context) : Ty → Ty → Bool
  | .num a, .num b => a == b
  | .ref a, .ref b => ctx.refSub a b
  | _, _ => false

/-- The topmost heap type above one. -/
def topOf (ctx : Context) : Heap → Heap
  | .abstract s a => .abstract s a.top
  | .concrete i => .abstract false (ctx.kindOf i).top

/-- Heap types that exist and are switched on; declared ones up to `known`. -/
def heapOk (known : Nat) : Heap → Bool
  | .abstract shared heap => !shared && heap != .cont && heap != .noCont
  | .concrete index => index < known

def tyOkUpTo (known : Nat) : Ty → Bool
  | .num _ => true
  | .ref r => heapOk known r.heap

def tyOk (ctx : Context) (ty : Ty) : Bool := tyOkUpTo ctx.types.size ty

def refOk (ctx : Context) (r : RefType) : Bool := heapOk ctx.types.size r.heap

/-- Whether a heap type exists, be it switched on or not. -/
def heapKnown (ctx : Context) : Heap → Bool
  | .abstract _ _ => true
  | .concrete index => index < ctx.types.size

def funcType? (ctx : Context) (index : Nat) : Option FuncType :=
  match ctx.bodyOf? index with
  | some (.func ty) => some ty
  | _ => none

def typeOfFunc? (ctx : Context) (func : Nat) : Option FuncType :=
  ctx.funcs[func]?.bind ctx.funcType?

def addReferable (ctx : Context) (func : Nat) : Context :=
  { ctx with referable := func :: ctx.referable }

end Context
end Wasmill.Wasm
