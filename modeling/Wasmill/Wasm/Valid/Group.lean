import Wasmill.Wasm.Valid.Context

/-! Checking declared types.

A type may name types that come before it and those of its own recursion group. A subtype has to fit
below its parent, which comes before it and is open for subtypes. -/
namespace Wasmill.Wasm
namespace Storage

def okUpTo (known : Nat) : Storage → Bool
  | .val ty => Context.tyOkUpTo known ty
  | .i8 | .i16 => true

def sub (ctx : Context) : Storage → Storage → Bool
  | .val a, .val b => ctx.tySub a b
  | a, b => a == b

end Storage

/-- Fields that can be written have to agree both ways. -/
def Field.sub (ctx : Context) (a b : Field) : Bool :=
  a.mutable == b.mutable && a.storage.sub ctx b.storage &&
    (!a.mutable || b.storage.sub ctx a.storage)

namespace Composite

/-- Whether all types it names exist. Stack switching is switched off. -/
def okUpTo (known : Nat) : Composite → Bool
  | .func ty => (ty.params ++ ty.results).all (Context.tyOkUpTo known)
  | .array element => element.storage.okUpTo known
  | .struct fields => fields.all (·.storage.okUpTo known)
  | .cont _ => false

/-- Whether two lists agree item by item. -/
def pairwise (f : α → β → Bool) : List α → List β → Bool
  | [], [] => true
  | a :: as, b :: bs => f a b && pairwise f as bs
  | _, _ => false

def sub (ctx : Context) : Composite → Composite → Bool
  | .func a, .func b =>
    pairwise ctx.tySub b.params a.params && pairwise ctx.tySub a.results b.results
  | .array a, .array b => a.sub ctx b
  | .struct as, .struct bs =>
    bs.length ≤ as.length && pairwise (Field.sub ctx) (as.take bs.length) bs
  | _, _ => false

end Composite

/-- Rewrites the types that a type names. -/
def Heap.rename (f : Nat → Nat) : Heap → Heap
  | .concrete index => .concrete (f index)
  | h => h

def Ty.rename (f : Nat → Nat) : Ty → Ty
  | .ref r => .ref ⟨r.nullable, r.heap.rename f⟩
  | ty => ty

def Field.rename (f : Nat → Nat) (field : Field) : Field :=
  match field.storage with
  | .val ty => { field with storage := .val (ty.rename f) }
  | _ => field

def Composite.rename (f : Nat → Nat) : Composite → Composite
  | .func ty => .func ⟨ty.params.map (·.rename f), ty.results.map (·.rename f)⟩
  | .array element => .array (element.rename f)
  | .struct fields => .struct (fields.map (·.rename f))
  | .cont index => .cont (f index)

def SubType.rename (f : Nat → Nat) (ty : SubType) : SubType :=
  { ty with parent := ty.parent.map f, body := ty.body.rename f }

namespace Context

/-- How many parents a type has above it. -/
def depthOf (ctx : Context) : (steps index : Nat) → Nat
  | 0, _ => 0
  | steps + 1, index =>
    match ctx.types[index]?.bind (·.ty.parent) with
    | some parent => 1 + ctx.depthOf steps parent
    | none => 0

/-- Whether a type, which is in the context, fits below its parent. -/
def fits (ctx : Context) (index : Nat) (ty : SubType) : Bool :=
  match ty.parent with
  | none => true
  | some parent =>
    match ctx.types[parent]? with
    | some above =>
      parent < index && !above.ty.final && above.ty.shared == ty.shared
        && ty.body.sub ctx above.ty.body && ctx.depthOf 65 index ≤ 63
    | none => false

/-- Types of the group by their place, others by number. -/
def comparable (ctx : Context) (start : Nat) (group : List SubType) : List SubType :=
  group.map fun ty => ty.rename fun index =>
    if start ≤ index then 2 * (index - start) + 1 else 2 * (ctx.numberOf index).getD 0

/-- Enters a recursion group, as known types if an equal one was there before. -/
def enterGroup (ctx : Context) (group : List SubType) : Context :=
  let form := ctx.comparable ctx.types.size group
  let (first, ctx) :=
    match ctx.groups.find? (·.form = form) with
    | some known => (known.first, ctx)
    | none =>
      (ctx.numbers, { ctx with
        groups := ⟨form, ctx.numbers⟩ :: ctx.groups
        numbers := ctx.numbers + group.length })
  { ctx with types := ctx.types ++ (group.mapIdx fun i ty => ⟨ty, first + i⟩).toArray }

def addGroup (ctx : Context) (group : List SubType) : Except Error Context := do
  let start := ctx.types.size
  let known := start + group.length
  require (known ≤ 1000000) "too many types"
  require (group.all fun ty => !ty.shared && ty.body.okUpTo known) "invalid type"
  let ctx := ctx.enterGroup group
  require ((group.mapIdx fun i ty => ctx.fits (start + i) ty).all id) "invalid subtype"
  return ctx

end Context
end Wasmill.Wasm
