import Wasmill.Search

/-! Ranges of placed code, and the places in it that are known by name.

`Range.find?` and `Site.find?` search tables sorted by code offset. -/
namespace Wasmill.Code

/-- What a range of code is. -/
inductive RangeKind
  /-- The body of a function. It begins with its counting entry; calls enter at `entry`. -/
  | function (func bytecode entry : Nat)
  /-- The trampoline of an exported function. -/
  | entry (exportIndex : Nat)
  /-- The generic way out to an import. -/
  | interpExit (importIndex : Nat)
  /-- The direct way out to an import's optimized code. -/
  | jitExit (importIndex : Nat)
  /-- Where a pending host failure leaves. -/
  | errorExit
  /-- A shared trap target. -/
  | inline
  /-- A far jump for calls out of branch range. -/
  | callThunk (target : Nat)
  deriving DecidableEq, Repr, Inhabited

structure Range where
  kind : RangeKind
  start : Nat
  stop : Nat
  deriving DecidableEq, Repr, Inhabited

/-- An instruction that may trap, and the operator it came from. -/
structure Site where
  code : Nat
  bytecode : Nat
  deriving DecidableEq, Repr, Inhabited

/-- A direct call, by the place it returns to. -/
structure CallSiteDesc where
  returnsTo : Nat
  bytecode : Nat
  deriving DecidableEq, Repr, Inhabited

namespace RangeKind

def text : RangeKind → String
  | .function f b e =>
    s!"Function \x7b func_index: FuncIndex({f}), bytecode_offset: {b}, entry: {e} \x7d"
  | .entry e => s!"Entry \x7b export: ExportIndex({e}) \x7d"
  | .interpExit i => s!"ImportInterpExit \x7b import: ImportIndex({i}) \x7d"
  | .jitExit i => s!"ImportJitExit \x7b import: ImportIndex({i}) \x7d"
  | .errorExit => "ErrorExit"
  | .inline => "Inline"
  | .callThunk t => s!"CallThunk \x7b target: FuncIndex({t}) \x7d"

end RangeKind

namespace Range

def contains (r : Range) (pc : Nat) : Bool := r.start ≤ pc && pc < r.stop

/-- The counting and the regular entry of a function's range. -/
def entries? (r : Range) : Option (Nat × Nat) :=
  match r.kind with
  | .function _ _ entry => some (r.start, entry)
  | _ => none

def func? (r : Range) : Option Nat :=
  match r.kind with
  | .function func _ _ => some func
  | _ => none

/-- The range that holds `pc`. -/
def find? (ranges : Array Range) (pc : Nat) : Option Range :=
  (ranges[Search.partitionPoint (fun r => r.stop ≤ pc) ranges]?).filter (·.contains pc)

end Range

/-- The module offset of the trapping instruction at `pc`. -/
def Site.find? (sites : Array Site) (pc : Nat) : Option Nat :=
  (Search.findKey? Site.code pc sites).map (·.bytecode)

end Wasmill.Code
