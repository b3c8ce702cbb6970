import Wasmill.Generator
import Wasmill.Proofs.Code.Linking
import Wasmill.Proofs.Code.Lowering
import Wasmill.Proofs.Effects

/-! What a generator keeps, whatever is asked of it and whether it succeeds or not.

The layout is sound, every piece of it is known by its origin, and a function is placed at most
once. -/
namespace Wasmill
open Code Steps List Option
variable {g' : Generator} {log : Array (Nat × Ssa.Function)} {p : Piece} {s : Nat}

/-! ### Stubs as lines -/

namespace Code.Chunk

def entryLines (callee : Nat) (sig : Sig) : List Line :=
  [{ instr := .entryPrologue sig.params.length },
    { instr := .call (-1) (List.range sig.params.length) (resultSlot sig),
      calls := some (callee, 0) },
    { instr := .entryReturn (resultSlot sig) }]

def exitLines (optimized : Bool) (symbol : Symbol) (importIndex : Nat) (sig : Sig) : List Line :=
  [{ instr := .prologue (max sig.params.length 1) unlinked },
    { instr := .exit optimized unlinked importIndex sig.params.length unlinked,
      symbol := some symbol },
    { instr := .ret (resultSlot sig) }]

def interpLines (importIndex : Nat) (sig : Sig) : List Line :=
  exitLines false (.callImport sig.result) importIndex sig

def jitLines (importIndex : Nat) (sig : Sig) : List Line :=
  exitLines true .callOptimized importIndex sig

def trapLines (trap : Trap) : List Line := [{ instr := .trapExit trap }]

def throwLines : List Line := [{ instr := .unwind }]

end Code.Chunk

/-! ### Where pieces come from -/

/-- The function that the piece is the body of. -/
def Code.Piece.func? (p : Piece) : Option Nat :=
  match p.kind with
  | .function func _ _ => some func
  | _ => none

/-- The functions whose bodies are placed. -/
def Code.placedFuncs (pieces : List Piece) : List Nat := pieces.filterMap Piece.func?

/-- What a piece at `s` is made from, given the functions that were compiled. -/
inductive Code.Origin (log : Array (Nat × Ssa.Function)) : Nat → Piece → Prop
  | function {s func bytecode : Nat} {f : Ssa.Function} {lines : List Line} :
      (func, f) ∈ log → f.values.size < UInt32.size → Lower.lines func f = .ok lines →
      Origin log s ⟨.function func bytecode (s + profilingEntrySize), lines⟩
  | entry {s index callee : Nat} {sig : Sig} :
      Origin log s ⟨.entry index, Chunk.entryLines callee sig⟩
  | interpExit {s index : Nat} {sig : Sig} :
      Origin log s ⟨.interpExit index, Chunk.interpLines index sig⟩
  | jitExit {s index : Nat} {sig : Sig} : Origin log s ⟨.jitExit index, Chunk.jitLines index sig⟩
  | trap {s : Nat} {trap : Trap} : Origin log s ⟨.inline, Chunk.trapLines trap⟩
  | throw {s : Nat} : Origin log s ⟨.errorExit, Chunk.throwLines⟩
  | far {s callee : Nat} : Origin log s (.far callee)

theorem Code.Origin.mono {log' : Array (Nat × Ssa.Function)} (h : Origin log s p)
    (grows : ∀ x ∈ log, x ∈ log') : Origin log' s p := by
  cases h with
  | function mem small lines => exact .function (grows _ mem) small lines
  | entry => exact .entry
  | interpExit => exact .interpExit
  | jitExit => exact .jitExit
  | trap => exact .trap
  | throw => exact .throw
  | far => exact .far

/-- Neither the body of a function nor a far jump. -/
def Code.RangeKind.isStub : RangeKind → Bool
  | .function _ _ _ | .callThunk _ => false
  | _ => true

theorem Code.Origin.plain (h : Origin log s p) (stub : p.kind.isStub) :
    ∀ line ∈ p.lines, line.Plain := by
  cases h with
  | function | far => cases stub
  | entry | interpExit | jitExit =>
    simp only [Chunk.entryLines, Chunk.interpLines, Chunk.jitLines, Chunk.exitLines, mem_cons,
      not_mem_nil, or_false]
    rintro line (rfl | rfl | rfl) <;> exact ⟨rfl, rfl, rfl⟩
  | trap | throw =>
    simp only [Chunk.trapLines, Chunk.throwLines, mem_singleton]
    rintro line rfl
    exact ⟨rfl, rfl, rfl⟩

theorem Code.Layout.entry?_congr {l l' : Layout} (same : l'.entries = l.entries) (func : Nat) :
    l'.entry? func = l.entry? func := by
  rw [Layout.entry?, entry?, same]

namespace Generator

/-- The tasks that wait to be merged. -/
def waiting (g : Generator) : List CompileTask := g.helpers.getD []

/-- What holds of a generator at any time, while these tasks wait to be merged. As long as it is
whole no call was lost. -/
structure Consistent (whole : Prop) (g : Generator) (waiting : List CompileTask)
    (pieces : List Piece)
    (filled : Nat → Option Nat) : Prop where
  sound : Sound whole g.layout pieces filled
  reach : g.layout.reach = g.config.maxBranchRange
  origin : ∀ s p, (s, p) ∈ sited 0 pieces → Origin g.log s p
  once : (placedFuncs pieces ++ waiting.map (·.func)).Nodup
  known : ∀ func ∈ placedFuncs pieces ++ waiting.map (·.func), func ∈ g.defined
  bodies : ∀ func ∈ g.defined, g.env.isDefined func
  entered : ∀ p ∈ pieces, ∀ func bytecode entry, p.kind = .function func bytecode entry →
    g.layout.entry? func = some entry
  tasks : ∀ task ∈ waiting, ∀ chunk, task.output = .ok chunk →
    ∃ f, (task.func, f) ∈ g.log ∧ Chunk.ofFunction task.func f = .ok chunk
  early : g.frozen = false → g.helpers = none ∧ g.stubs = none
  closed : g.stubs.isSome → g.layout.code.size < UInt32.size ∧ waiting = [] ∧
    ∀ func, g.env.isDefined func → func ∈ g.defined

theorem consistent_new (whole : Prop) (config : Config) :
    Consistent whole (.new config) [] [] (fun _ => none) :=
  ⟨.new .., rfl, by simp, by simp [placedFuncs], by simp [placedFuncs], by simp [new], by simp,
    by simp, fun _ => ⟨rfl, rfl⟩,
    nofun⟩

/-- Pieces that are placed before the module is finished. -/
def Unstubbed (pieces : List Piece) : Prop :=
  ∀ p ∈ pieces, p.func?.isSome ∨ ∃ callee, p = Piece.far callee

/-- Only functions were placed so far, and nothing was linked. -/
structure Open (g : Generator) (pieces : List Piece) : Prop where
  bare : Unstubbed pieces
  unlinked : Unlinked g.layout pieces
  exits : g.importExits = #[]
  stubs : g.stubs = none

end Generator

section
variable {whole : Prop} {g : Generator} {waiting tasks : List CompileTask} {pieces new : List Piece}
  {filled : Nat → Option Nat} {α : Type}
  {Q : α → Generator → Prop} {E : Error → Generator → Prop} {task : CompileTask}

theorem Code.placedFuncs_far {fars : List Piece}
    (far : ∀ p ∈ fars, ∃ callee, p = Piece.far callee) : placedFuncs fars = [] := by
  rw [placedFuncs, filterMap_eq_nil_iff]
  intro p mem
  obtain ⟨callee, rfl⟩ := far p mem
  rfl

theorem Code.placedFuncs_append {a b : List Piece} :
    placedFuncs (a ++ b) = placedFuncs a ++ placedFuncs b :=
  filterMap_append

theorem Code.Origin.fars {fars : List Piece} {start : Nat}
    (far : ∀ p ∈ fars, ∃ callee, p = Piece.far callee)
    (mem : (s, p) ∈ sited start fars) : Origin log s p := by
  obtain ⟨callee, rfl⟩ := far p (mem_of_sited mem)
  exact .far

/-! ### Steps that fail without effect -/

@[simp] theorem Gen.leads_fail {e : Error} : Leads (Gen.fail e : Gen α) g Q E ↔ E e g := by
  unfold Gen.fail
  exact leads_throw

theorem Gen.leads_atomic {f : Generator → Except Error (α × Generator)} :
    Leads (Gen.atomic f) g Q E ↔ match f g with
      | .ok (a, g') => Q a g'
      | .error e => E e g := by
  unfold Leads Gen.atomic
  cases f g <;> rfl

theorem Gen.leads_onLayout {step : Laying α} : Leads (Gen.onLayout step) g Q E ↔
    Leads step g.layout (fun a layout => Q a { g with layout }) fun e layout =>
      E e { g with layout } := by
  unfold Leads Gen.onLayout
  rcases step g.layout with ⟨_ | _, layout⟩ <;> rfl

theorem Gen.leads_finishTask {Q : Unit → Generator → Prop} : Leads (Gen.finishTask task) g Q E ↔
    match task.output with
    | .ok chunk =>
      Leads (Laying.appendFunction chunk task.func (min task.slot.offset 0xffffffff)) g.layout
        (fun _ layout => Q () { g with free := task.slot :: g.free, layout })
        fun e layout => E e { g with free := task.slot :: g.free, layout }
    | .error e => E e { g with free := task.slot :: g.free } := by
  unfold Gen.finishTask
  rw [leads_bind, leads_modify, leads_bind, leads_lift]
  cases task.output with
  | error e => rfl
  | ok chunk => exact Gen.leads_onLayout

/-- If a task fails, the others are merged before its failure is reported. -/
theorem Gen.leads_finishTasks_cons {Q : Unit → Generator → Prop} :
    Leads (Gen.finishTasks (task :: tasks)) g Q E ↔
      Leads (Gen.finishTask task) g (fun _ g => Leads (Gen.finishTasks tasks) g Q E)
      fun e g => Leads (Gen.finishTasks tasks) g (fun _ => E e) fun _ => E e := by
  rw [Gen.finishTasks]
  simp only [leads_bind, leads_tryCatch, leads_pure, orElse_eq_orElse, orElse_eq_or, none_or,
    some_or, Gen.leads_fail]

theorem Gen.leads_finishDefs {Q : Unit → Generator → Prop} :
    Leads Gen.finishDefs g Q E ↔ Leads (Gen.finishTasks g.waiting)
      { g with helpers := g.helpers.map fun _ => [] } Q E := by
  unfold Gen.finishDefs Generator.waiting
  rw [leads_bind, leads_get]
  cases is : g.helpers with
  | none =>
    have same : ({ g with helpers := none } : Generator) = g := by rw [← is]
    show Leads (pure ()) g Q E ↔ Leads (pure ()) { g with helpers := none } Q E
    rw [same]
  | some tasks => exact leads_bind.trans leads_modify

/-- A slot is given back, unless its function is not defined; its task waits, or is merged at once.
-/
theorem Gen.leads_finishDef {func : Nat} {slot : CompileSlot} {Q : Unit → Generator → Prop} :
    Leads (Gen.finishDef func slot) g Q E ↔
      if !g.env.isDefined func then E (.internal (.notDefined func)) g
      else if g.defined.contains func then E (.internal (.compiledTwice func))
        { g with free := slot :: g.free }
      else if slot.body.size > g.env.limits.functionSize then
        E (.limit .bodyBytes g.env.limits.functionSize)
          { g with defined := func :: g.defined, free := slot :: g.free }
      else Leads (Gen.compile slot func) { g with defined := func :: g.defined }
        (fun output g => match g.helpers with
        | some tasks => Q () { g with helpers := some (tasks ++ [⟨slot, func, output⟩]) }
        | none => Leads (Gen.finishTask ⟨slot, func, output⟩) g Q E) E := by
  unfold Gen.finishDef
  rw [leads_bind, leads_get]
  split
  · exact leads_throw
  split
  · exact leads_bind.trans (leads_set.trans leads_throw)
  refine leads_bind.trans (leads_set.trans ?_)
  dsimp only
  split
  · exact leads_bind.trans (leads_modify.trans leads_throw)
  rw [leads_bind]
  refine iff_of_eq (congrArg (Leads _ _ · E) (funext fun output => funext fun g => propext ?_))
  rw [leads_bind, leads_get]
  cases g.helpers with
  | none => exact Iff.rfl
  | some tasks => exact leads_modify

theorem Gen.leads_takeSlot {Q : CompileSlot → Generator → Prop} :
    Leads (do
      let g ← get
      match g.free with
      | slot :: free =>
        set { g with free }
        return slot
      | [] => Gen.fail (.internal .noCompileSlot) : Gen CompileSlot) g Q E ↔ match g.free with
        | slot :: free => Q slot { g with free }
        | [] => E (.internal .noCompileSlot) g := by
  rw [leads_bind, leads_get]
  cases g.free with
  | nil => exact leads_throw
  | cons slot free =>
    show Leads (set _ >>= fun _ => pure slot) g Q E ↔ _
    rw [leads_bind, leads_set, leads_pure]

/-- A free slot is taken. If there is none the oldest task is merged first, and its slot is taken.
-/
theorem Gen.leads_startDef {Q : CompileSlot → Generator → Prop} :
    Leads Gen.startDef g Q E ↔ Leads Gen.startDefs g (fun _ g => match g.free, g.waiting with
      | slot :: free, _ => Q slot { g with free }
      | [], task :: rest =>
        Leads (Gen.finishTask task) { g with helpers := some rest }
          (fun _ g => Q task.slot { g with free := [] }) E
      | [], [] => E (.internal .noCompileSlot) g) E := by
  unfold Gen.startDef
  rw [leads_bind]
  refine iff_of_eq (congrArg (Leads _ g · E) (funext fun _ => funext fun g => propext ?_))
  rw [leads_bind, leads_get]
  have first := Gen.leads_takeSlot (g := g) (Q := Q) (E := E)
  cases free : g.free with
  | cons slot rest =>
    rw [free] at first
    exact first
  | nil =>
    rw [free] at first
    show Leads (get >>= _) g Q E ↔ _
    rw [leads_bind, leads_get, Generator.waiting]
    rcases g.helpers with _ | _ | ⟨task, rest⟩
    · exact first
    · exact first
    · show Leads (modify _ >>= _) g Q E ↔ Leads (Gen.finishTask task) _ _ _
      rw [leads_bind, leads_modify, leads_bind, Gen.leads_finishTask, Gen.leads_finishTask]
      dsimp only
      rw [free]
      cases task.output with
      | error e => exact Iff.rfl
      | ok chunk =>
        refine iff_of_eq
          (congrArg (Leads _ _ · _) (funext fun _ => funext fun layout => propext ?_))
        exact Gen.leads_takeSlot

namespace Generator

/-- A layout that changed, and nothing else. -/
theorem Consistent.onLayout {whole' : Prop} (h : Consistent whole g waiting pieces filled)
    {layout : Layout} {filled' : Nat → Option Nat}
    (sound : Sound whole' layout (pieces ++ new) filled') (reach : layout.reach = g.layout.reach)
    (origin : ∀ s p, (s, p) ∈ sited (extent (linesOf pieces)) new → Origin g.log s p)
    (bodiless : placedFuncs new = [])
    (entered : ∀ func, g.env.isDefined func → layout.entry? func = g.layout.entry? func)
    (unfinished : g.stubs = none) :
    Consistent whole' { g with layout } waiting (pieces ++ new) filled' := by
  refine ⟨sound, reach.trans h.reach, ?_, ?_, ?_, h.bodies, ?_, h.tasks, h.early,
    by rw [unfinished]; nofun⟩
  · intro s p mem
    rw [sited_append, Nat.zero_add] at mem
    exact (mem_append.1 mem).elim (h.origin s p) (origin s p)
  · rw [placedFuncs_append, bodiless, append_nil]
    exact h.once
  · rw [placedFuncs_append, bodiless, append_nil]
    exact h.known
  · intro p mem func bytecode entry is
    rcases mem_append.1 mem with mem | mem
    · have known : func ∈ g.defined :=
        h.known func (mem_append_left _ (mem_filterMap.2 ⟨p, mem, by simp [Piece.func?, is]⟩))
      rw [entered func (h.bodies func known)]
      exact h.entered p mem func bytecode entry is
    · have : func ∈ placedFuncs new := mem_filterMap.2 ⟨p, mem, by simp [Piece.func?, is]⟩
      rw [bodiless] at this
      cases this

theorem Consistent.broken (h : Consistent whole g waiting pieces filled) :
    Consistent False g waiting pieces filled :=
  { h with sound := h.sound.broken }

/-- Placing a chunk failed. -/
theorem Consistent.stop (h : Consistent whole g waiting pieces filled) {layout : Layout}
    {fars : List Piece} {filled' : Nat → Option Nat}
    (reserves : Reserves g.layout layout pieces fars)
    (sound : Sound False layout (pieces ++ fars) filled')
    (unfinished : g.stubs = none) :
    Consistent False { g with layout } waiting (pieces ++ fars) filled' :=
  h.onLayout sound (by rw [reserves.same]) (fun s p => .fars reserves.far)
    (placedFuncs_far reserves.far)
    (fun func _ => Layout.entry?_congr (by rw [reserves.same]) func) unfinished

/-! ### Merging -/

/-- What defining functions changes. -/
structure Merges (g g' : Generator) (pieces new : List Piece) : Prop where
  bare : Unstubbed new
  unlinked : Unlinked g.layout pieces → Unlinked g'.layout (pieces ++ new)
  frozen : g.frozen = true → g'.frozen = true
  same : g' = { g with
    layout := g'.layout, free := g'.free, helpers := g'.helpers, frozen :=
      g'.frozen, defined := g'.defined
    log := g'.log }

theorem Merges.of_same (layout : g'.layout = g.layout) (frozen : g.frozen = true → g'.frozen = true)
    (same : g' = { g with
      layout := g'.layout, free := g'.free, helpers := g'.helpers, frozen :=
  g'.frozen, defined := g'.defined
      log := g'.log }) : Merges g g' pieces [] :=
  ⟨by simp [Unstubbed], by simp [layout], frozen, same⟩

theorem Merges.refl (g : Generator) (pieces : List Piece) : Merges g g pieces [] :=
  .of_same rfl id rfl

theorem Merges.trans {g'' : Generator} {a b : List Piece} (one : Merges g g' pieces a)
    (two : Merges g' g'' (pieces ++ a) b) : Merges g g'' pieces (a ++ b) := by
  refine ⟨?_, ?_, two.frozen ∘ one.frozen, ?_⟩
  · intro p mem
    exact (mem_append.1 mem).elim (one.bare p) (two.bare p)
  · intro u
    rw [← append_assoc]
    exact two.unlinked (one.unlinked u)
  · rw [two.same, one.same]

theorem Merges.stay {g'' : Generator} (one : Merges g g' pieces new)
    (two : Merges g' g'' (pieces ++ new) []) : Merges g g'' pieces new := by
  simpa using one.trans two

theorem Open.merges (h : g.Open pieces) (merges : Merges g g' pieces new) :
    g'.Open (pieces ++ new) := by
  refine ⟨?_, merges.unlinked h.unlinked, ?_, ?_⟩
  · intro p mem
    exact (mem_append.1 mem).elim (h.bare p) (merges.bare p)
  · rw [merges.same]
    exact h.exits
  · rw [merges.same]
    exact h.stubs

/-- Merging a task places its function, if it was compiled. -/
theorem Consistent.finishTask (h : Consistent whole g (task :: waiting) pieces filled) :
    Leads (Gen.finishTask task) g
      (fun _ g' => ∃ new filled', Merges g g' pieces new ∧ task.func ∈ placedFuncs new ∧
        g'.helpers = g.helpers ∧ g'.defined = g.defined ∧
          Consistent whole g' waiting (pieces ++ new) filled')
      (fun _ g' => ∃ new filled', Merges g g' pieces new ∧ g'.helpers = g.helpers ∧
        Consistent False g' waiting (pieces ++ new) filled') := by
  have unfinished : g.stubs = none := by
    cases is : g.stubs with
    | none => rfl
    | some stubs => cases (h.closed (by rw [is]; rfl)).2.1
  have fewer : Consistent whole { g with free := task.slot :: g.free } waiting pieces filled := by
    refine { h with once := ?_, known := ?_, tasks := ?_, closed := by rw [unfinished]; nofun }
    · have := h.once
      rw [map_cons] at this
      exact this.sublist (List.Sublist.append_left (sublist_cons_self ..) _)
    · intro func mem
      refine h.known func ?_
      rw [map_cons]
      exact (List.Sublist.append_left (sublist_cons_self ..) _).subset mem
    · intro task' mem
      exact h.tasks task' (mem_cons_of_mem _ mem)
  rw [Gen.leads_finishTask]
  cases output : task.output with
  | error e => exact ⟨[], filled, .of_same rfl id rfl, rfl, by rw [append_nil]; exact fewer.broken⟩
  | ok chunk =>
    obtain ⟨f, logged, compiled⟩ := h.tasks task mem_cons_self chunk output
    obtain ⟨small, lines, lowered, rfl⟩ := Lower.ofFunction_ok compiled
    obtain ⟨place, lowering⟩ := Lower.lines_ok lowered
    have madeOf := Chunk.ofLines_madeOf lines
    unfold Laying.appendFunction
    refine leads_bind.2 ((h.sound.append (.function task.func (min task.slot.offset 0xffffffff) 0)
      ({ madeOf with } : Chunk.MadeOf
        { Chunk.ofLines lines with entry := profilingEntrySize } lines)
      lowering.plain (by simp)).imp ?_ ?_)
    rotate_left
    · rintro _ layout ⟨fars, filled', reserves, sound⟩
      exact ⟨fars, filled', ⟨fun p mem => .inr (reserves.far p mem), reserves.unlinked, id, rfl⟩,
        rfl,
        fewer.stop reserves sound unfinished⟩
    rintro start l₁ ⟨fars, filled', start_is, appends⟩
    rw [leads_modify]
    simp only [RangeKind.placed] at appends
    generalize piece_is :
      (⟨.function task.func (min task.slot.offset 0xffffffff) (start + profilingEntrySize), lines⟩ :
      Piece) = piece at appends
    have func : piece.func? = some task.func := by rw [← piece_is]; rfl
    have placed : placedFuncs (fars ++ [piece]) = [task.func] := by
      rw [placedFuncs_append, placedFuncs_far appends.far]
      simp [placedFuncs, func]
    have there : (start, piece) ∈ sited 0 (pieces ++ (fars ++ [piece])) := by
      rw [← append_assoc, sited_append, Nat.zero_add, ← start_is]
      exact mem_append_right _ (mem_singleton.2 rfl)
    have enters : Enters (pieces ++ (fars ++ [piece])) task.func (start + profilingEntrySize) :=
      ⟨start, piece, there, .inl ⟨_, by rw [← piece_is]⟩⟩
    have sound := appends.sound
    rw [append_assoc] at sound
    have sound := sound.setEntry enters
    refine ⟨fars ++ [piece], filled', ⟨?_, fun u => ?_, id, rfl⟩,
      by rw [placed]; exact mem_singleton.2 rfl,
      rfl, rfl, ?_⟩
    · intro p mem
      rcases mem_append.1 mem with mem | mem
      · exact .inr (appends.far p mem)
      · rw [mem_singleton.1 mem, func]
        exact .inl rfl
    · have := appends.unlinked u
      rw [append_assoc] at this
      exact { this with }
    · refine ⟨sound, appends.reach.trans h.reach, ?_, ?_, ?_, h.bodies, ?_, fewer.tasks, h.early,
        by rw [unfinished]; nofun⟩
      · intro s p mem
        rw [sited_append, sited_append] at mem
        rcases mem_append.1 mem with mem | mem
        · exact h.origin s p mem
        · rcases mem_append.1 mem with mem | mem
          · exact .fars appends.far mem
          · rw [sited_cons, sited_nil, mem_singleton, Prod.mk.injEq] at mem
            obtain ⟨rfl, rfl⟩ := mem
            have : start = 0 + extent (linesOf pieces) + extent (linesOf fars) := by
              rw [start_is, linesOf_append, extent_append]
              omega
            rw [← piece_is, ← this]
            exact .function logged small lowered
      · rw [placedFuncs_append, placed, append_assoc]
        exact h.once
      · rw [placedFuncs_append, placed, append_assoc]
        exact h.known
      · intro p mem func' bytecode entry is
        show Layout.entry? (l₁.setEntry _ _) _ = _
        rw [Laid.setEntry_entries]
        rcases mem_append.1 mem with old | mem
        · have ne : func' ≠ task.func := by
            rintro rfl
            have there : task.func ∈ placedFuncs pieces :=
              mem_filterMap.2 ⟨p, old, by simp [Piece.func?, is]⟩
            have := (nodup_append.1 h.once).2.2 _ there _ mem_cons_self
            exact this rfl
          rw [if_neg ne, Layout.entry?_congr appends.entries]
          exact h.entered p old func' bytecode entry is
        · rcases mem_append.1 mem with mem | mem
          · obtain ⟨callee, rfl⟩ := appends.far p mem
            cases is
          · rw [mem_singleton.1 mem, ← piece_is] at is
            cases is
            exact if_pos rfl

/-- Merging tasks, one after another, whether they were compiled or not. -/
theorem Consistent.finishTasks (h : Consistent whole g (tasks ++ waiting) pieces filled) :
    Leads (Gen.finishTasks tasks) g
      (fun _ g' => ∃ new filled', Merges g g' pieces new ∧
        (∀ task ∈ tasks, task.func ∈ placedFuncs new) ∧
        g'.helpers = g.helpers ∧ g'.defined = g.defined ∧
          Consistent whole g' waiting (pieces ++ new) filled')
      (fun _ g' => ∃ new filled', Merges g g' pieces new ∧ g'.helpers = g.helpers ∧
        Consistent False g' waiting (pieces ++ new) filled') := by
  induction tasks generalizing whole g pieces filled with
  | nil => exact leads_pure.2 ⟨[], filled, .refl g pieces, by simp, rfl, rfl, by simpa using h⟩
  | cons task tasks ih =>
    -- what is left of the others, after `new`
    have failed {g₁ : Generator} {new : List Piece} (merges : Merges g g₁ pieces new)
        (helpers : g₁.helpers = g.helpers)
        (g₂ : Generator) : (∃ new' filled',
          Merges g₁ g₂ (pieces ++ new) new' ∧ g₂.helpers = g₁.helpers ∧
          Consistent False g₂ waiting (pieces ++ new ++ new') filled') →
        ∃ new filled', Merges g g₂ pieces new ∧ g₂.helpers = g.helpers ∧
          Consistent False g₂ waiting (pieces ++ new) filled' := by
      rintro ⟨new', filled', merges', helpers', kept'⟩
      rw [append_assoc] at kept'
      exact ⟨new ++ new', filled', merges.trans merges', helpers'.trans helpers, kept'⟩
    rw [Gen.leads_finishTasks_cons]
    refine (Consistent.finishTask h).imp ?_ ?_
    · rintro _ g₁ ⟨new, filled₁, merges, placed, helpers, defined, kept⟩
      refine (ih kept).imp ?_ fun _ g₂ => failed merges helpers g₂
      rintro _ g₂ ⟨new', filled₂, merges', placed', helpers', defined', kept'⟩
      rw [append_assoc] at kept'
      refine ⟨new ++ new', filled₂, merges.trans merges', ?_, helpers'.trans helpers,
        defined'.trans defined, kept'⟩
      intro task' mem
      rw [placedFuncs_append]
      rcases mem_cons.1 mem with rfl | mem
      · exact mem_append_left _ placed
      · exact mem_append_right _ (placed' task' mem)
    · rintro e g₁ ⟨new, filled₁, merges, helpers, kept⟩
      refine (ih kept).imp ?_ fun _ g₂ => failed merges helpers g₂
      rintro _ g₂ ⟨new', filled', merges', _, helpers', _, kept'⟩
      exact failed merges helpers g₂ ⟨new', filled', merges', helpers', kept'⟩

end Generator
end
end Wasmill
