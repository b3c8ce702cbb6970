import Wasmill.Module

/-! Records whose numbers are kept in 32 bits.

Indices, places and offsets are numbers without a bound here; a module holds only such as fit into
32 bits. -/
namespace Wasmill
open Code

def Bounds.Fits (b : Bounds) : Prop :=
  b.initial < UInt32.size ∧ ∀ n, b.maximum = some n → n < UInt32.size

def InitExpr.Fits : InitExpr → Prop
  | .const _ => True
  | .globalGet index => index < UInt32.size

def GlobalInit.Fits : GlobalInit → Prop
  | .const init => init.Fits
  | .imported _ => True

/-- The limits, in the order they are written. -/
def Limits.all (l : Limits) : List Nat :=
  [l.types, l.funcs, l.imports, l.exports, l.globals, l.dataSegments, l.elemSegments, l.tableElems,
    l.memoryPages, l.params,
    l.locals, l.functionSize]

def Limits.Fits (l : Limits) : Prop := ∀ n ∈ l.all, n < UInt32.size

def TokenPlaces.Fits (p : TokenPlaces) : Prop :=
  p.others < UInt32.size ∧ ∀ place ∈ p.listed.toList, place < UInt32.size

structure Env.Fits (e : Env) : Prop where
  sigs : e.sigs.size < UInt32.size
  /-- Every function has a signature that is there. -/
  funcs : ∀ sig ∈ e.funcs.toList, sig < e.sigs.size
  funcCount : e.funcs.size < UInt32.size
  importCount : e.funcImports.size ≤ e.funcs.size
  funcImports : ∀ i ∈ e.funcImports.toList, i.sig < UInt32.size ∧ i.record < UInt32.size
  tables : ∀ t ∈ e.tables.toList, t.bounds.Fits ∧ t.handle < UInt32.size
  /-- Every table takes room in global data. -/
  tableCount : e.tables.size ≤ e.globalDataLen
  memory : ∀ m, e.memory = some m → m.bounds.Fits
  globals : ∀ g ∈ e.globals.toList, g.init.Fits ∧ g.place < UInt32.size
  globalCount : e.globals.size < UInt32.size
  sigTokens : e.sigTokens.Fits
  globalDataLen : e.globalDataLen < UInt32.size
  limits : e.limits.Fits

theorem Env.exists_sigOf? {env : Env} {func : Nat} (lt : func < env.funcs.size)
    (known : ∀ sig ∈ env.funcs.toList, sig < env.sigs.size) :
    ∃ sig, env.sigOf? func = some sig := by
  have sig := known env.funcs[func] (Array.mem_toList_iff.2 (Array.getElem_mem lt))
  exact ⟨_, by rw [Env.sigOf?, Array.getElem?_eq_getElem lt, Option.bind_some,
    Array.getElem?_eq_getElem sig]⟩

namespace Code

def RangeKind.Fits : RangeKind → Prop
  | .function func bytecode place =>
    func < UInt32.size ∧ bytecode < UInt32.size ∧ place < UInt32.size
  | .entry index | .interpExit index | .jitExit index | .callThunk index => index < UInt32.size
  | .errorExit | .inline => True

def StubOffsets.Fits (s : StubOffsets) : Prop :=
  s.outOfBounds < UInt32.size ∧ s.interrupt < UInt32.size ∧ s.stackOverflow < UInt32.size ∧
    s.throw < UInt32.size

structure LinkData.Fits (l : LinkData) : Prop where
  internal : ∀ link ∈ l.internal.toList, link.patchAt < UInt32.size ∧ link.target < UInt32.size
  symbolic : ∀ places ∈ l.symbolic.toList, ∀ place ∈ places.toList, place < UInt32.size
  funcPtrs : ∀ t ∈ l.funcPtrs.toList, t.table < UInt32.size ∧ t.handle < UInt32.size ∧
    ∀ entry ∈ t.entries.toList, ∀ place, entry = some place → place < UInt32.size

end Code

def ExportItem.Fits : ExportItem → Prop
  | .function index | .table index | .global index => index < UInt32.size
  | .memory => True

structure Exports.Fits (e : Exports) : Prop where
  funcs : ∀ f ∈ e.funcs.toList, f.func < UInt32.size ∧ f.sig < UInt32.size ∧ f.entry < UInt32.size
  names : ∀ name ∈ e.names.toList, name.2.Fits

/-- A segment that names functions which are there. -/
structure ElemSegment.Fits (tables funcs : Nat) (s : ElemSegment) : Prop where
  table : s.table < tables
  offset : s.offset.Fits
  funcs : ∀ func ∈ s.funcs.toList, ∀ f, func = some f → f < funcs

structure Module.Fits (m : Module) : Prop where
  env : m.env.Fits
  code : m.code.size < UInt32.size
  ranges : ∀ r ∈ m.ranges.toList, r.kind.Fits ∧ r.start < UInt32.size ∧ r.stop ≤ m.code.size
  trapSites : ∀ s ∈ m.trapSites.toList, s.code < UInt32.size ∧ s.bytecode < UInt32.size
  callSites : ∀ s ∈ m.callSites.toList, s.returnsTo < UInt32.size ∧ s.bytecode < UInt32.size
  start : ∀ func, m.start = some func → func < m.env.funcs.size
  startEntry : ∀ entry, m.startEntry = some entry → entry < UInt32.size
  elems : ∀ s ∈ m.elems.toList, s.Fits m.env.tables.size m.env.funcs.size
  stubs : m.stubs.Fits
  indirectSigs : ∀ sig ∈ m.indirectSigs.toList, sig < m.env.sigs.size
  funcNames : ∀ name ∈ m.funcNames.toList, name.1 < UInt32.size
  link : m.link.Fits
  imports : ∀ i ∈ m.imports.toList,
    (i.sig < UInt32.size ∧ i.record < UInt32.size) ∧ i.interpExit < UInt32.size ∧
      i.jitExit < UInt32.size
  exports : m.exports.Fits
  data : ∀ s ∈ m.data.toList, s.offset.Fits

end Wasmill
