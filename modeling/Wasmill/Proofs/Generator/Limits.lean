import Wasmill.Proofs.Generator.Fitting

/-! How much can be declared.

Every declaration checks its limits, and nothing else adds to what is declared, so all of it keeps
to the limits after any history. Functions are the exception: an import adds a function, and their
number is not checked then. -/
namespace Wasmill
open Code Steps List

/-- How many imports the initial value takes. -/
def GlobalInit.imports : GlobalInit → Nat
  | .const _ => 0
  | .imported _ => 1

/-- How many imports there are, of all kinds. -/
def Env.imports (env : Env) : Nat :=
  env.funcImports.size + (env.tables.toList.map (Generator.imported ·.source)).sum +
    env.memory.elim 0 (Generator.imported ·.source) + (env.globals.toList.map (·.init.imports)).sum

/-- A declaration takes one import at most, and only as long as there may be more of them. -/
theorem Env.Adds.imports {env env' : Env} {count count' : Nat} {d : Generator.Declaration}
    (adds : env.Adds count d env' count') :
    ∃ more, env'.imports = env.imports + more ∧ count' = count + more ∧ more ≤ 1 ∧
      (0 < more → count < env.limits.imports) := by
  have source (s : Option ImportName) (few : s.isSome → count < env.limits.imports) :
      Generator.imported s ≤ 1 ∧ (0 < Generator.imported s → count < env.limits.imports) := by
    cases s with
    | none => exact ⟨Nat.zero_le 1, nofun⟩
    | some _ => exact ⟨Nat.le_refl 1, fun _ => few rfl⟩
  cases adds with
  | sig few params room => exact ⟨0, rfl, rfl, Nat.zero_le 1, nofun⟩
  | funcImport few known first room =>
    refine ⟨1, ?_, rfl, Nat.le_refl 1, fun _ => few⟩
    simp only [Env.imports, Array.size_push]
    omega
  | @table bounds s handle few within room =>
    refine ⟨Generator.imported s, ?_, rfl, source s few⟩
    simp only [Env.imports, Array.toList_push, map_append, sum_append, map_singleton, sum_singleton]
    omega
  | @memory bounds s first few within =>
    refine ⟨Generator.imported s, ?_, rfl, source s few⟩
    simp only [Env.imports, first, Option.elim_none, Option.elim_some]
    omega
  | @global d ty init more place is counts typed few room =>
    have more_is : more = init.imports ∧ more ≤ 1 := by cases d <;> cases is <;>
      exact ⟨rfl, by decide⟩
    refine ⟨more, ?_, rfl, more_is.2, counts⟩
    simp only [Env.imports, Array.toList_push, map_append, sum_append, map_singleton,
      sum_singleton, more_is.1]
    omega
  | func few known => exact ⟨0, rfl, rfl, Nat.zero_le 1, nofun⟩

namespace Generator
variable {g g' : Generator} {config : Config}

/-- What is declared keeps to the limits. Functions may be more, if they are imported. -/
structure Limited (config : Config) (g : Generator) : Prop where
  limits : g.env.limits = config.limits
  types : g.env.sigs.size ≤ g.env.limits.types
  params : ∀ sig ∈ g.env.sigs.toList, sig.params.length ≤ g.env.limits.params
  funcs : g.env.funcs.size ≤ max g.env.limits.funcs g.env.funcImports.size
  counted : g.importCount = g.env.imports
  imports : g.env.imports ≤ g.env.limits.imports
  tables : ∀ t ∈ g.env.tables.toList, t.bounds.Within g.env.limits.tableElems
  memory : ∀ m, g.env.memory = some m → m.bounds.Within g.env.limits.memoryPages
  globals : g.env.globals.size ≤ g.env.limits.globals
  exports : g.exports.names.size ≤ g.env.limits.exports
  elems : g.elems.size ≤ g.env.limits.elemSegments
  short : ∀ segment ∈ g.elems.toList, segment.funcs.size ≤ g.env.limits.tableElems
  data : g.data.size ≤ g.env.limits.dataSegments

theorem Limited.alike (h : Limited config g) (alike : Alike g g') : Limited config g' := by
  obtain ⟨limits, types, params, funcs, counted, imports, tables, memory, globals, exports, elems,
    short, data⟩ := h
  rw [← alike.env] at *
  rw [← alike.importCount] at counted
  rw [← alike.names] at exports
  rw [← alike.elems] at elems short
  rw [← alike.data] at data
  exact ⟨limits, types, params, funcs, counted, imports, tables, memory, globals, exports, elems,
    short, data⟩

theorem size_push_le {α : Type} {xs : Array α} {x : α} {most : Nat} (few : xs.size < most) :
    (xs.push x).size ≤ most := by
  rwa [Array.size_push]

theorem Limited.adds {d : Declaration} {env : Env} {importCount : Nat} (h : Limited config g)
    (adds : g.env.Adds g.importCount d env importCount) :
    Limited config { g with env, importCount } := by
  obtain ⟨more, all, count, one, open'⟩ := adds.imports
  have counted : importCount = env.imports := by rw [count, all, h.counted]
  have imports : env.imports ≤ g.env.limits.imports := by
    have := h.imports
    omega
  cases adds with
  | sig few params room =>
    exact { h with
      counted, imports, types := size_push_le few
      params := fun _ => mem_push (P := fun s : Sig => s.params.length ≤ _) h.params params }
  | funcImport few known first room =>
    refine { h with counted, imports, funcs := ?_ }
    simp only [Array.size_push, first]
    exact Nat.le_max_right ..
  | table few within room =>
    exact { h with counted, imports, tables := fun _ => mem_push (P := fun t : TableDesc =>
      t.bounds.Within _) h.tables within }
  | memory first few within =>
    refine { h with counted, imports, memory := fun _ is => ?_ }
    cases is
    exact within
  | global is counts typed few room =>
    exact { h with counted, imports, globals := size_push_le few }
  | func few known =>
    exact { h with counted, imports, funcs := Nat.le_trans (size_push_le few) (Nat.le_max_left ..) }

theorem ListsExport.names {entity : Entity} {item : ExportItem} {exports : Exports}
    (lists : g.ListsExport entity item exports) :
    exports.names = g.exports.names := by
  cases lists <;> rfl

theorem Limited.accepts {d : Declaration} (h : Limited config g) (accepts : Accepts g d g') :
    Limited config g' := by
  cases accepts with
  | adds opened adds => exact h.adds adds
  | «export» unfinished few new lists =>
    rw [← lists.names] at few
    exact { h with exports := size_push_le few }
  | elems unfinished few short table funcs =>
    exact { h with
      elems := size_push_le few
      short := fun _ => mem_push (P := fun s : ElemSegment => s.funcs.size ≤ _) h.short short }
  | data few memory => exact { h with data := size_push_le few }
  | _ => exact { h with }

theorem limited_new (config : Config) : Limited config (new config) := by
  constructor <;> simp [new, Env.imports]

/-- After any history, what is declared keeps to the limits. -/
theorem limited_after (config : Config) (history : List Request) :
    Limited config ((new config).after history) :=
  after_keeps Limited.alike Limited.accepts (limited_new config) history

/-- Imports can outnumber the functions that there may be. -/
theorem imports_outnumber : ((new { limits := { funcs := 1 } }).after
    [.declare (.sig ⟨[], none⟩), .declare (.funcImport ⟨"m", "a"⟩ 0),
      .declare (.funcImport ⟨"m", "b"⟩ 0)]).env.funcs.size = 2 := by
  decide

end Generator
end Wasmill
