import Wasmill.Proofs.Code.Fitting
import Wasmill.Proofs.Generator.Logged

/-! What is declared is kept in 32 bits.

Counts are checked against limits, places in global data against its length, and indices name what
is there. -/
namespace Wasmill
open Code Steps Array

/-! ### Environments -/

section
variable {env env' : Env}

theorem Limits.Fits.lt {l : Limits} (h : l.Fits) {n : Nat} (mem : n ∈ l.all) {count : Nat}
    (lt : count < n) : count + 1 < UInt32.size :=
  Nat.lt_of_le_of_lt lt (h n mem)

theorem Limits.fits_default : Limits.Fits {} := show ∀ n ∈ Limits.all {}, n < UInt32.size by decide

theorem Env.fits_new {config : Config} (limits : config.limits.Fits) :
    Env.Fits { interruptMode := config.interruptMode, limits := config.limits } :=
  ⟨by simp, by simp, by simp, by simp, by simp, by simp, by simp, by simp, by simp, by simp,
    ⟨by simp, by simp⟩, by simp, limits⟩

end

namespace Generator

/-! ### Generators -/

/-- A task whose code may be merged. -/
structure TaskFits (env : Env) (task : CompileTask) : Prop where
  own : task.slot.env = env
  func : task.func < UInt32.size
  output : ∀ c, task.output = .ok c → c.Fits env.sigs.size

/-- Nothing is held that does not fit, and all is compiled against the same declarations. -/
structure Fits (env : Env) (g : Generator) : Prop where
  same : g.env = env
  fit : env.Fits
  imports : env.funcImports.size ≤ g.importCount
  exports : g.exports.Fits
  exportCount : g.exports.funcs.size ≤ g.exports.names.size ∧ g.exports.names.size < UInt32.size
  start : ∀ func, g.start = some func → func < env.funcs.size
  elems : ∀ s ∈ g.elems.toList, s.Fits env.tables.size env.funcs.size
  data : ∀ s ∈ g.data.toList, s.offset.Fits
  funcNames : ∀ name ∈ g.funcNames.toList, name.1 < UInt32.size
  layout : g.layout.Fits env.sigs.size
  importExits : ∀ exit ∈ g.importExits.toList, exit.1 < UInt32.size ∧ exit.2 < UInt32.size
  stubs : ∀ s, g.stubs = some s → s.Fits
  early : g.frozen = false → g.free = [] ∧ g.helpers = none ∧ g.log = #[]
  free : ∀ slot ∈ g.free, slot.env = env
  tasks : ∀ task ∈ g.waiting, TaskFits env task
  log : ∀ func f, (func, f) ∈ g.log → ∃ slot : CompileSlot, slot.env = env ∧ slot.CompilesTo func f

variable {g g' : Generator} {env : Env}

theorem fits_new {config : Config} (limits : config.limits.Fits) :
    Fits (new config).env (new config) :=
  { same := rfl, fit := Env.fits_new limits, imports := Nat.le_refl _,
    exports := ⟨by simp [new], by simp [new]⟩
    exportCount := ⟨Nat.le_refl _, show 0 < UInt32.size by decide⟩, start := by
      simp [new], elems := by simp [new]
    data := by simp [new], funcNames := by simp [new], layout :=
      Layout.fits_new _ _, importExits := by simp [new]
    stubs := by simp [new], early := fun _ => ⟨rfl, rfl, rfl⟩, free := by simp [new], tasks := by
      simp [new, waiting]
    log := by simp [new] }

/-! ### Declarations -/

/-- Numbers that are taken as they are given fit. -/
def Declaration.Fits : Declaration → Prop
  | .elems segment => segment.offset.Fits
  | .data segment => segment.offset.Fits
  | .funcName index _ => index < UInt32.size
  | _ => True

/-- Declarations before the definitions only add to the environment. -/
theorem Fits.grow (h : Fits env g) (importCount : Nat) (opened : g.frozen = false) {env' : Env}
    (fits : env'.Fits)
    (imports : env'.funcImports.size ≤ importCount) (sigs : env.sigs.size ≤ env'.sigs.size)
    (tables : env.tables.size ≤ env'.tables.size) (funcs : env.funcs.size ≤ env'.funcs.size) :
    Fits env' { g with env := env', importCount } := by
  obtain ⟨free, helpers, log⟩ := h.early opened
  refine { h with
    same := rfl, fit := fits, imports := imports, start :=
      fun func is => Nat.lt_of_lt_of_le (h.start func is) funcs
    elems := fun s mem => ?_, layout := h.layout.mono sigs, free := ?_, tasks := ?_, log := ?_ }
  · have old := h.elems s mem
    exact ⟨Nat.lt_of_lt_of_le old.table tables, old.offset,
      fun func there f is => Nat.lt_of_lt_of_le (old.funcs func there f is) funcs⟩
  · show ∀ slot ∈ g.free, _
    rw [free]
    intro slot mem
    cases mem
  · show ∀ task ∈ g.helpers.getD [], _
    rw [helpers]
    intro task mem
    cases mem
  · show ∀ func f, (func, f) ∈ g.log → _
    rw [log]
    exact fun func f mem => absurd mem (not_mem_empty (func, f))

theorem bounds_fit {bounds : Bounds} {most : Nat} (small : most < UInt32.size)
    (within : bounds.Within most) : bounds.Fits :=
  ⟨Nat.lt_of_le_of_lt within.1 small, fun n is => Nat.lt_of_le_of_lt (within.2 n is) small⟩

theorem init_fits {init : GlobalInit} {ty : ValType} (e : env.Fits) (typed : init.Typed env ty) :
    init.Fits := by
  cases init with
  | imported source => trivial
  | const init =>
    cases init with
    | const v => trivial
    | globalGet index =>
      obtain ⟨desc, known, _⟩ := typed
      exact Nat.lt_trans (Array.getElem?_eq_some_iff.1 known).1 e.globalCount

/-- What is added fits. -/
theorem Fits.adds (h : Fits env g) (opened : g.frozen = false) {d : Declaration} {env' : Env}
    {importCount : Nat}
    (adds : env.Adds g.importCount d env' importCount) :
    Fits env' { g with env := env', importCount } := by
  have e := h.fit
  -- what lies behind all else leaves room for as many tables as before
  have tables {place size align : Nat} (room : env.Room place size align) :
      env.tables.size ≤ place + size :=
    Nat.le_trans e.tableCount (Nat.le_trans room.low (Nat.le_add_right _ _))
  have low {place size align : Nat} (room : env.Room place size align) : place < UInt32.size :=
    Nat.lt_of_le_of_lt (Nat.le_add_right _ _) room.small
  cases adds with
  | sig few params room =>
    refine h.grow _ opened { e with
      sigs := ?_, funcs := ?_, tableCount := tables room
      sigTokens := ⟨e.sigTokens.1, fun p => mem_push e.sigTokens.2 (low room)⟩
      globalDataLen := room.small } h.imports ?_ (Nat.le_refl _) (Nat.le_refl _)
    · rw [size_push]
      exact e.limits.lt (by simp [Limits.all]) few
    · intro sig mem
      rw [size_push]
      exact Nat.lt_succ_of_lt (e.funcs sig mem)
    · rw [size_push]
      exact Nat.le_succ _
  | funcImport few known first room =>
    refine h.grow _ opened { e with
      funcs := fun s => mem_push e.funcs known, funcCount := ?_, importCount := ?_
      funcImports := fun i => mem_push e.funcImports ⟨Nat.lt_trans known e.sigs, low room⟩
      tableCount := tables room, globalDataLen := room.small } ?_ (Nat.le_refl _) (Nat.le_refl _) ?_
    · have few := e.limits.lt (show env.limits.imports ∈ env.limits.all by simp [Limits.all]) few
      have := h.imports
      rw [size_push]
      show env.funcs.size + 1 < _
      omega
    · rw [size_push, size_push]
      exact Nat.succ_le_succ e.importCount
    · rw [size_push]
      exact Nat.succ_le_succ h.imports
    · rw [size_push]
      exact Nat.le_succ _
  | @table bounds source handle few within room =>
    have small : env.limits.tableElems < UInt32.size := e.limits _ (by simp [Limits.all])
    refine h.grow _ opened { e with
      tables := fun t => mem_push e.tables ⟨bounds_fit small within, low room⟩
      tableCount := ?_, globalDataLen := room.small }
      (Nat.le_trans h.imports (Nat.le_add_right _ _)) (Nat.le_refl _) ?_ (Nat.le_refl _)
    · have := e.tableCount
      have := room.low
      rw [size_push]
      show env.tables.size + 1 ≤ handle + 8
      omega
    · rw [size_push]
      exact Nat.le_succ _
  | memory first few within =>
    have small : env.limits.memoryPages < UInt32.size := e.limits _ (by simp [Limits.all])
    refine h.grow _ opened { e with memory := fun m is => ?_ }
      (Nat.le_trans h.imports (Nat.le_add_right _ _)) (Nat.le_refl _)
      (Nat.le_refl _) (Nat.le_refl _)
    cases is
    exact bounds_fit small within
  | global is imports typed few room =>
    refine h.grow _ opened { e with
      tableCount := tables room, globals :=
        fun g => mem_push e.globals ⟨init_fits e typed, low room⟩
      globalCount := ?_, globalDataLen :=
        room.small } (Nat.le_trans h.imports (Nat.le_add_right _ _)) (Nat.le_refl _) (Nat.le_refl _)
      (Nat.le_refl _)
    rw [size_push]
    exact e.limits.lt (by simp [Limits.all]) few
  | func few known =>
    refine h.grow _ opened
      { e with funcs := fun s => mem_push e.funcs known, funcCount := ?_, importCount := ?_ }
      h.imports (Nat.le_refl _) (Nat.le_refl _) ?_
    · rw [size_push]
      exact e.limits.lt (by simp [Limits.all]) few
    · rw [size_push]
      exact Nat.le_succ_of_le e.importCount
    · rw [size_push]
      exact Nat.le_succ _

/-- An export that is listed fits. -/
theorem Fits.lists (h : Fits env g) {entity : Entity} {item : ExportItem} {exports : Exports}
    (lists : g.ListsExport entity item exports) :
    item.Fits ∧ exports.Fits ∧ exports.names = g.exports.names ∧
      exports.funcs.size ≤ g.exports.funcs.size + 1 := by
  have e := h.fit
  have same : g.exports.Fits ∧ g.exports.names = g.exports.names ∧
      g.exports.funcs.size ≤ g.exports.funcs.size + 1 :=
    ⟨h.exports, rfl, Nat.le_succ _⟩
  have few := Nat.lt_of_le_of_lt h.exportCount.1 h.exportCount.2
  cases lists with
  | again known listed is => exact ⟨Nat.lt_trans (Array.getElem?_eq_some_iff.1 listed).1 few, same⟩
  | function known =>
    rw [h.same] at known
    obtain ⟨lt, known⟩ := Array.getElem?_eq_some_iff.1 known
    have mem := mem_toList_iff.2 (known ▸ getElem_mem lt)
    refine ⟨few,
      ⟨fun f => mem_push h.exports.funcs ⟨Nat.lt_trans lt e.funcCount,
        Nat.lt_trans (e.funcs _ mem) e.sigs, ?_⟩,
      h.exports.names⟩, rfl, Nat.le_of_eq (size_push ..)⟩
    show unlinked < UInt32.size
    decide
  | table known =>
    exact ⟨Nat.lt_trans (Nat.lt_of_lt_of_le (h.same ▸ known) e.tableCount) e.globalDataLen, same⟩
  | memory known => exact ⟨trivial, same⟩
  | global known => exact ⟨Nat.lt_trans (h.same ▸ known) e.globalCount, same⟩

/-- A declaration that is accepted fits, if what is not checked does. -/
theorem Fits.declared (h : Fits env g) {d : Declaration} (fits : d.Fits)
    (is : g.declared d = .ok g') :
    ∃ env', Fits env' g' ∧ env'.interruptMode = env.interruptMode := by
  cases declared_accepts is with
  | adds opened adds =>
    rw [h.same] at adds
    exact ⟨_, h.adds opened adds, by cases adds <;> rfl⟩
  | «export» unfinished few new lists =>
    rw [h.same] at few
    obtain ⟨fits, all, names, funcs⟩ := h.lists lists
    refine ⟨env, { h with exports := ⟨all.funcs, ?_⟩, exportCount := ⟨?_, ?_⟩ }, rfl⟩
    · rw [names]
      exact fun x => mem_push h.exports.names fits
    · rw [size_push, names]
      exact Nat.le_trans funcs (Nat.succ_le_succ h.exportCount.1)
    · rw [size_push, names]
      exact h.fit.limits.lt (by simp [Limits.all]) few
  | start known =>
    refine ⟨env, { h with start := fun func' is => ?_ }, rfl⟩
    cases is
    rw [h.same] at known
    obtain ⟨_, known, _⟩ := Option.bind_eq_some_iff.1 known
    exact (Array.getElem?_eq_some_iff.1 known).1
  | elems unfinished few short table funcs =>
    rw [h.same] at table funcs
    exact ⟨env, { h with elems := fun s => mem_push h.elems ⟨table, fits,
      fun func mem f is => funcs f (is ▸ mem)⟩ }, rfl⟩
  | data few memory => exact ⟨env, { h with data := fun s => mem_push h.data fits }, rfl⟩
  | name text => exact ⟨env, { h with }, rfl⟩
  | funcName func text =>
    exact ⟨env, { h with funcNames := fun x => mem_push h.funcNames fits }, rfl⟩
  | bytecode bytecode is => exact ⟨env, { h with }, rfl⟩

end Generator
end Wasmill
