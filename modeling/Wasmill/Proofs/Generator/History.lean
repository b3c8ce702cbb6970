import Wasmill.Proofs.Generator.Declaring
import Wasmill.Proofs.Generator.Finishing

/-! Histories of a generator.

A history is a list of requests. Those that fail are ignored by whoever makes them, so that the next
one finds the generator as far as the last one got. -/
namespace Wasmill
open Code Steps List

namespace Generator
variable {whole : Prop} {g g' : Generator} {pieces : List Piece} {filled : Nat → Option Nat}
  {stubs : StubOffsets} {d : Declaration} {env : Env}

/-! ### Declarations -/

/-- What a declaration changes. -/
structure Declares (g g' : Generator) : Prop where
  same : g' = { g with
    env := g'.env, importCount := g'.importCount, exports := g'.exports, start :=
      g'.start, elems := g'.elems
    data := g'.data, name := g'.name, funcNames := g'.funcNames, bytecode := g'.bytecode }
  funcs : g.env.funcs.size ≤ g'.env.funcs.size
  defined : ∀ func, g.env.isDefined func → g'.env.isDefined func
  start : ∀ func, g'.start = some func → g.start = some func ∨ func < g.env.funcs.size
  frozen : g.frozen = true → g'.env = g.env
  finished : g.stubs.isSome → g'.exports = g.exports ∧ g'.elems = g.elems

theorem isDefined_iff {func : Nat} :
    env.isDefined func = true ↔ env.funcImports.size ≤ func ∧ func < env.funcs.size := by
  unfold Env.isDefined Env.importedFuncs
  rw [Bool.and_eq_true, decide_eq_true_eq, decide_eq_true_eq]

theorem Declares.of_env {importCount : Nat} (unfrozen : g.frozen = false)
    (funcs : g.env.funcs.size ≤ env.funcs.size)
    (defined : ∀ func, g.env.isDefined func → env.isDefined func) :
    Declares g { g with env, importCount } := by
  refine ⟨rfl, funcs, defined, fun _ is => .inl is, fun frozen => ?_, fun _ => ⟨rfl, rfl⟩⟩
  rw [unfrozen] at frozen
  cases frozen

theorem Declares.of_unfinished {exports : Exports} {elems : Array ElemSegment}
    (unfinished : g.stubs = none) :
    Declares g { g with exports, elems } := by
  refine ⟨rfl, Nat.le_refl _, fun _ h => h, fun _ is => .inl is, fun _ => rfl, fun finished => ?_⟩
  rw [unfinished] at finished
  cases finished

theorem Declares.of_same (h : g' =
    { g with data := g'.data, name := g'.name, funcNames := g'.funcNames, bytecode := g'.bytecode }) :
    Declares g g' := by
  rw [h]
  exact ⟨rfl, Nat.le_refl _, fun _ h => h, fun _ is => .inl is, fun _ => rfl, fun _ => ⟨rfl, rfl⟩⟩

theorem Accepts.declares (h : Accepts g d g') : Declares g g' := by
  cases h with
  | adds opened adds =>
    cases adds with
    | funcImport few known first room =>
      refine .of_env opened (by simp) fun func isDefined => ?_
      rw [isDefined_iff] at isDefined
      omega
    | func few known =>
      refine .of_env opened (by simp) fun func isDefined => ?_
      rw [isDefined_iff] at isDefined ⊢
      rw [Array.size_push]
      exact ⟨isDefined.1, Nat.lt_succ_of_lt isDefined.2⟩
    | _ => exact .of_env opened (Nat.le_refl _) fun _ h => h
  | «export» unfinished few new lists => exact .of_unfinished unfinished
  | elems unfinished few short table funcs => exact .of_unfinished unfinished
  | start known =>
    refine ⟨rfl, Nat.le_refl _, fun _ h => h, fun func is => ?_, fun _ => rfl, fun _ => ⟨rfl, rfl⟩⟩
    cases is
    obtain ⟨_, known, _⟩ := Option.bind_eq_some_iff.1 known
    exact .inr (Array.getElem?_eq_some_iff.1 known).1
  | _ => exact .of_same rfl

theorem declared_ok (h : g.declared d = .ok g') : Declares g g' := (declared_accepts h).declares

/-! ### Requests -/

/-- What can be asked of a generator before it is finished. Whoever opened a slot may hold it for
any time and put any body into it before it is closed. -/
inductive Request
  | declare (d : Declaration)
  | startDefs
  | openSlot
  | closeSlot (func : Nat) (slot : CompileSlot)
  | define (func : Nat) (body : ByteArray) (offset : Nat)
  | finishDefs
  | finishCodegen

def Request.perform : Request → Gen Unit
  | .declare d => Gen.declare (·.declared d)
  | .startDefs => Gen.startDefs
  | .openSlot => do
    let _ ← Gen.startDef
    return
  | .closeSlot func slot => Gen.finishDef func slot
  | .define func body offset => Gen.define func body offset
  | .finishDefs => Gen.finishDefs
  | .finishCodegen => Gen.finishCodegen

/-- The generator after a history. Failures are ignored. -/
def after (g : Generator) (history : List Request) : Generator :=
  history.foldl (fun g request => (request.perform g).2) g

/-- What can be computed of a finished module. -/
theorem finished_of (config : Config) (history : List Request) (p : Module → Bool)
    (shown : (Gen.finish ((new config).after history)).1.toOption.any p = true) :
    ∃ m g, Gen.finish ((new config).after history) = (.ok m, g) ∧ p m = true := by
  rcases is : Gen.finish ((new config).after history) with ⟨e | m, g⟩ <;> rw [is] at shown
  · cases shown
  · exact ⟨m, g, rfl, shown⟩

/-- A stub was placed. -/
def Stubbed (g : Generator) : Prop :=
  ∃ r ∈ g.layout.ranges.toList, r.func? = none ∧ ∀ callee, r.kind ≠ .callThunk callee

/-- A function was given a body that is neither placed nor waits. -/
def Lost (g : Generator) (func : Nat) : Prop :=
  func ∈ g.defined ∧ (∀ r ∈ g.layout.ranges.toList, r.func? ≠ some func) ∧
    ∀ task ∈ g.waiting, task.func ≠ func

theorem Gen.leads_declare {f : Generator → Except Error Generator} {Q : Unit → Generator → Prop}
    {E : Error → Generator → Prop} :
    Leads (Gen.declare f) g Q E ↔ match f g with
      | .ok g' => Q () g'
      | .error e => E e g := by
  rw [Gen.declare, Gen.leads_atomic]
  cases f g <;> rfl

/-! ### What every history keeps -/

/-- What holds of a generator after any history. -/
structure Grown (whole : Prop) (g : Generator) (pieces : List Piece)
    (filled : Nat → Option Nat) : Prop where
  kept : Consistent whole g g.waiting pieces filled
  fresh : CanFinish g pieces
  start : ∀ func, g.start = some func → func < g.env.funcs.size

theorem grown_new (whole : Prop) (config : Config) : Grown whole (new config) [] (fun _ => none) :=
  ⟨consistent_new whole config, fun none' => ⟨none', ⟨rfl, rfl, rfl, rfl⟩, rfl, rfl⟩, nofun⟩

section
variable (h : Grown whole g pieces filled)
include h

theorem Grown.declares (d : Declares g g') : Grown whole g' pieces filled := by
  have waiting : g'.waiting = g.waiting := by rw [d.same]; rfl
  refine ⟨?_, ?_, ?_⟩
  · rw [waiting, d.same]
    refine { h.kept with bodies :=
      fun func mem => d.defined func (h.kept.bodies func mem), closed := fun finished => ?_ }
    obtain ⟨small, idle, all⟩ := h.kept.closed finished
    have frozen : g.frozen = true := by
      refine Bool.not_eq_false _ ▸ fun unfrozen => ?_
      rw [(h.kept.early unfrozen).2] at finished
      cases finished
    exact ⟨small, idle, by rw [d.frozen frozen]; exact all⟩
  · intro none'
    rw [d.same]
    exact ⟨none', (h.fresh none').unlinked, (h.fresh none').exits, (h.fresh none').stubs⟩
  · intro func is
    rcases d.start func is with is | lt
    · exact Nat.lt_of_lt_of_le (h.start func is) d.funcs
    · exact Nat.lt_of_lt_of_le lt d.funcs

theorem Grown.merges {whole' : Prop} {new : List Piece} {filled' : Nat → Option Nat}
    (merges : Merges g g' pieces new)
    (kept : Consistent whole' g' g'.waiting (pieces ++ new) filled') :
    Grown whole' g' (pieces ++ new) filled' := by
  refine ⟨kept, fun none' => (h.fresh fun p mem => none' p (mem_append_left _ mem)).merges merges,
    ?_⟩
  rw [merges.same]
  exact h.start

/-- How a request ends. -/
def Request.KeepsGrown (whole : Prop) (r : Request) (g : Generator) (pieces : List Piece) : Prop :=
  Leads r.perform g
    (fun _ g' => ∃ pieces' filled', Grown whole g' pieces' filled' ∧
      (Complete g g.waiting pieces → Complete g' g'.waiting pieces') ∧
      (whole → g.Open pieces → g'.Open pieces' ∨ ∃ stubs, Finished g' pieces' filled' stubs))
    (fun _ g' => ∃ pieces' filled', Grown False g' pieces' filled')

theorem Defines.keepsGrown {r : Request} (defines : Defines whole g pieces r.perform) :
    r.KeepsGrown whole g pieces := by
  refine Leads.imp defines ?_ ?_
  · rintro _ g' ⟨new, filled', merges, kept, complete⟩
    exact ⟨pieces ++ new, filled', h.merges merges kept, complete,
      fun _ opened => .inl (opened.merges merges)⟩
  · rintro _ g' ⟨new, filled', merges, kept⟩
    exact ⟨pieces ++ new, filled', h.merges merges kept⟩

theorem Grown.perform (r : Request) : r.KeepsGrown whole g pieces := by
  cases r with
  | declare d =>
    unfold Request.KeepsGrown Request.perform
    rw [Gen.leads_declare]
    cases is : g.declared d with
    | error e => exact ⟨pieces, filled, h.kept.broken, h.fresh, h.start⟩
    | ok g' =>
      have declares := declared_ok is
      refine ⟨pieces, filled, h.declares declares, ?_, fun _ opened => .inl ?_⟩
      · rw [declares.same]
        exact id
      · rw [declares.same]
        exact { opened with }
  | startDefs =>
    refine h.kept.startDefs.imp ?_ fun _ _ => False.elim
    rintro _ g' ⟨merges, waiting, defined, kept⟩
    have := h.merges merges (by simpa using kept)
    rw [append_nil] at this
    refine ⟨pieces, filled, this, ?_, fun _ opened => .inl (by simpa using opened.merges merges)⟩
    unfold Complete
    rw [waiting, defined]
    exact id
  | openSlot =>
    refine Defines.keepsGrown h ?_
    unfold Defines
    rw [Request.perform, leads_bind]
    exact h.kept.startDef.imp (fun _ _ h => by rw [leads_pure]; exact h) fun _ _ h => h
  | closeSlot func slot => exact Defines.keepsGrown h (h.kept.finishDef func slot)
  | define func body offset => exact Defines.keepsGrown h (h.kept.define func body offset)
  | finishDefs =>
    refine Defines.keepsGrown h (h.kept.finishDefs.imp ?_ ?_)
    · rintro _ g' ⟨new, filled', merges, none', kept, complete⟩
      rw [← none'] at kept complete
      exact ⟨new, filled', merges, kept, complete⟩
    · rintro _ g' ⟨new, filled', merges, none', kept⟩
      rw [← none'] at kept
      exact ⟨new, filled', merges, kept⟩
  | finishCodegen =>
    unfold Request.KeepsGrown Request.perform
    cases unfinished : g.stubs with
    | some stubs =>
      rw [Gen.leads_finishCodegen_done unfinished]
      exact ⟨pieces, filled, h, id, fun _ => .inl⟩
    | none =>
      refine (Respects.and (R := Alike) (E := fun _ => True) inferInstance
        (h.kept.finishCodegen h.fresh unfinished)).imp ?_ ?_
      · rintro _ g' ⟨alike, pieces', filled', kept, stubbed, complete, finished⟩
        exact ⟨pieces', filled',
          ⟨kept, .of_stubbed stubbed, by rw [alike.env, alike.start]; exact h.start⟩, complete,
          fun all opened => .inr (finished all opened.bare)⟩
      · rintro _ g' ⟨alike, pieces', filled', kept, fresh⟩
        exact ⟨pieces', filled', kept, fresh, by rw [alike.env, alike.start]; exact h.start⟩

theorem Grown.broken : Grown False g pieces filled := { h with kept := h.kept.broken }

theorem Grown.performed (r : Request) :
    ∃ pieces' filled', Grown False (r.perform g).2 pieces' filled' :=
  Leads.state (P := fun g' => ∃ pieces' filled', Grown False g' pieces' filled')
    ((h.perform r).imp (fun _ _ ⟨pieces', filled', grown, _⟩ => ⟨pieces', filled', grown.broken⟩)
      fun _ _ h => h)

theorem Grown.after (history : List Request) :
    ∃ pieces' filled', Grown False (g.after history) pieces' filled' := by
  induction history generalizing whole g pieces filled with
  | nil => exact ⟨pieces, filled, h.broken⟩
  | cons r rest ih =>
    obtain ⟨pieces', filled', next⟩ := h.performed r
    exact ih next

end

/-- A finished generator stays as it is, apart from what was never final. -/
theorem Finished.free (h : Finished g pieces filled stubs) (free : List CompileSlot) :
    Finished { g with free } pieces filled stubs :=
  { h with kept := { h.kept with } }

theorem Finished.declares (h : Finished g pieces filled stubs) (d : Declares g g') :
    Finished g' pieces filled stubs := by
  have env := d.frozen h.frozen
  obtain ⟨exports, elems⟩ := d.finished (by rw [h.done]; rfl)
  have same := d.same
  rw [env, exports, elems] at same
  rw [same]
  exact { h with kept := { h.kept with } }

/-- The generator is finished, with these pieces. -/
def Done (pieces : List Piece) (filled : Nat → Option Nat) (g : Generator) : Prop :=
  ∃ stubs, Finished g pieces filled stubs

section
variable (h : Done pieces filled g)
include h

theorem Done.startDefs :
    Leads Gen.startDefs g (fun _ => Done pieces filled) (fun _ => Done pieces filled) := by
  obtain ⟨stubs, h⟩ := h
  unfold Gen.startDefs
  rw [leads_modify, if_pos h.frozen]
  exact ⟨stubs, h⟩

theorem Done.startDef :
    Leads Gen.startDef g (fun _ => Done pieces filled) (fun _ => Done pieces filled) := by
  rw [Gen.leads_startDef]
  refine h.startDefs.imp ?_ fun _ _ h => h
  rintro _ g' ⟨stubs, h⟩
  split
  · exact ⟨stubs, h.free _⟩
  · next waits => cases h.idle.symm.trans waits
  · exact ⟨stubs, h⟩

theorem Done.finishDef (func : Nat) (slot : CompileSlot) :
    Leads (Gen.finishDef func slot) g (fun _ => Done pieces filled)
      (fun _ => Done pieces filled) := by
  obtain ⟨stubs, h⟩ := h
  unfold Gen.finishDef
  rw [leads_bind, leads_get]
  split
  · rw [Gen.leads_fail]
    exact ⟨stubs, h⟩
  rename_i isDefined
  have known : g.defined.contains func = true := by
    have := h.defined func (by simpa using isDefined)
    simpa using this
  rw [if_pos known, leads_bind, leads_set, Gen.leads_fail]
  exact ⟨stubs, h.free _⟩

theorem Done.perform (r : Request) :
    Leads r.perform g (fun _ => Done pieces filled) (fun _ => Done pieces filled) := by
  cases r with
  | declare d =>
    rw [Request.perform, Gen.leads_declare]
    cases is : g.declared d with
    | error e => exact h
    | ok g' =>
      obtain ⟨stubs, h⟩ := h
      exact ⟨stubs, h.declares (declared_ok is)⟩
  | startDefs => exact h.startDefs
  | openSlot =>
    rw [Request.perform, leads_bind]
    exact h.startDef.imp (fun _ _ h => by rw [leads_pure]; exact h) fun _ _ h => h
  | closeSlot func slot => exact h.finishDef func slot
  | define func body offset =>
    rw [Request.perform, Gen.define, leads_bind]
    exact h.startDef.imp (fun slot g' h => h.finishDef func _) fun _ _ h => h
  | finishDefs =>
    obtain ⟨stubs, h⟩ := h
    rw [Request.perform, Gen.finishDefs, leads_bind, leads_get]
    cases is : g.helpers with
    | none =>
      show Leads (pure ()) g _ _
      rw [leads_pure]
      exact ⟨stubs, h⟩
    | some tasks =>
      have none' : tasks = [] := by
        have := h.idle
        rwa [Generator.waiting, is] at this
      subst none'
      show Leads (modify _ >>= fun _ => Gen.finishTasks []) g _ _
      rw [leads_bind, leads_modify, Gen.finishTasks, leads_pure]
      have same : ({ g with helpers := some [] } : Generator) = g := by rw [← is]
      rw [same]
      exact ⟨stubs, h⟩
  | finishCodegen =>
    obtain ⟨stubs, h⟩ := h
    rw [Request.perform, Gen.leads_finishCodegen_done h.done]
    exact ⟨stubs, h⟩

end

/-! ### Histories in which no failure did harm -/

/-- The property holds of every request of the history, where it is made. -/
def Along (P : Generator → Request → Prop) (g : Generator) : List Request → Prop
  | [] => True
  | r :: rest => P g r ∧ Along P (r.perform g).2 rest

/-- If the request fails, it had no effect; or it placed no stub, and lost no call since no
displacement and no offset was too large. -/
def Request.Clean (g : Generator) (r : Request) : Prop :=
  (r.perform g).1.isOk = false → (r.perform g).2 = g ∨
    ((r.perform g).2.Stubbed → g.Stubbed) ∧ (r.perform g).2.layout.Near

/-- If the request fails, it lost no function. -/
def Request.Lossless (g : Generator) (r : Request) : Prop :=
  (r.perform g).1.isOk = false → ∀ func, (r.perform g).2.Lost func → g.Lost func

theorem Grown.unstubbed (h : Grown whole g pieces filled) : Unstubbed pieces ↔ ¬ g.Stubbed := by
  unfold Unstubbed Stubbed
  rw [h.kept.sound.laid.ranges]
  constructor
  · rintro none' ⟨r, mem, bodiless, near⟩
    obtain ⟨⟨s, p⟩, there, rfl⟩ := mem_map.1 mem
    rcases none' p (mem_of_sited there) with some' | ⟨callee, rfl⟩
    · have : p.func? = none := bodiless
      rw [this] at some'
      cases some'
    · exact near callee rfl
  · intro none' p mem
    obtain ⟨s, there⟩ := sited_of_mem 0 mem
    by_cases bodiless : p.func? = none
    · right
      refine Classical.byContradiction fun near => none' ⟨p.range s, mem_map.2 ⟨(s, p), there, rfl⟩,
        bodiless, ?_⟩
      rcases h.kept.sound.laid.sound p mem with far | ⟨near', _⟩
      · exact absurd far near
      · exact near'
    · exact .inl (Option.isSome_iff_ne_none.2 bodiless)

theorem Grown.complete (h : Grown whole g pieces filled) :
    Complete g g.waiting pieces ↔ ∀ func, ¬ g.Lost func := by
  have placed :
      ∀ func, func ∈ placedFuncs pieces ↔ ∃ r ∈ g.layout.ranges.toList, r.func? = some func := by
    intro func
    rw [h.kept.sound.laid.ranges, placedFuncs, mem_filterMap]
    constructor
    · rintro ⟨p, mem, is⟩
      obtain ⟨s, there⟩ := sited_of_mem 0 mem
      exact ⟨p.range s, mem_map.2 ⟨(s, p), there, rfl⟩, is⟩
    · rintro ⟨r, mem, is⟩
      obtain ⟨⟨s, p⟩, there, rfl⟩ := mem_map.1 mem
      exact ⟨p, mem_of_sited there, is⟩
  constructor
  · rintro complete func ⟨mem, unplaced, idle⟩
    rcases complete func mem with there | there
    · obtain ⟨r, mem, is⟩ := (placed func).1 there
      exact unplaced r mem is
    · obtain ⟨task, waits, is⟩ := mem_map.1 there
      exact idle task waits is
  · intro none' func mem
    refine Classical.byContradiction fun neither =>
      none' func ⟨mem, fun r there is => ?_, fun task waits is => ?_⟩
    · exact neither (.inl ((placed func).2 ⟨r, there, is⟩))
    · exact neither (.inr (mem_map.2 ⟨task, waits, is⟩))

/-- What holds after a history in which no failed request did harm. -/
structure Orderly (g : Generator) (pieces : List Piece) (filled : Nat → Option Nat) :
    Prop extends Grown True g pieces filled where
  order : g.Open pieces ∨ Done pieces filled g

theorem Done.stubbed (h : Done pieces filled g) : ¬ Unstubbed pieces := by
  obtain ⟨stubs, h⟩ := h
  exact stubbed_of_mem (mem_of_sited h.shared.throw) rfl

/-- A request loses no function, unless it fails and does. -/
theorem Grown.lossless (h : Grown whole g pieces filled) {r : Request} (lossless : r.Lossless g)
    (none' : ∀ func, ¬ g.Lost func) :
    ∀ func, ¬ (r.perform g).2.Lost func := by
  have ends := h.perform r
  unfold Request.Lossless at lossless
  rcases is : r.perform g with ⟨e | a, g'⟩
  · rw [is] at lossless
    exact fun func lost => none' func (lossless rfl func lost)
  · obtain ⟨pieces', filled', grown, complete, _⟩ := Leads.ok ends is
    exact grown.complete.1 (complete (h.complete.2 none'))

theorem Orderly.perform (h : Orderly g pieces filled) {r : Request} (clean : r.Clean g) :
    ∃ pieces' filled', Orderly (r.perform g).2 pieces' filled' := by
  have ends := h.toGrown.perform r
  rcases h.order with opened | done
  · unfold Request.Clean at clean
    rcases is : r.perform g with ⟨e | a, g'⟩
    · obtain ⟨pieces', filled', grown⟩ := Leads.error ends is
      rw [is] at clean
      rcases clean rfl with same | ⟨bare, near⟩
      · exact ⟨pieces, filled, same.symm ▸ h⟩
      have bare : Unstubbed pieces' := grown.unstubbed.2 fun stubbed =>
        h.toGrown.unstubbed.1 opened.bare (bare stubbed)
      have mended : Grown True g' pieces' filled' :=
        { grown with kept := { grown.kept with sound := grown.kept.sound.mend near } }
      exact ⟨pieces', filled', mended, .inl (grown.fresh bare)⟩
    · obtain ⟨pieces', filled', grown, _, order⟩ := Leads.ok ends is
      exact ⟨pieces', filled', grown, order trivial opened⟩
  · have done' : Done pieces filled (r.perform g).2 := (done.perform r).state
    obtain ⟨_, _, grown⟩ := h.toGrown.performed r
    obtain ⟨stubs, finished⟩ := done'
    exact ⟨pieces, filled, ⟨by rw [finished.idle]; exact finished.kept, .of_stubbed done.stubbed,
      grown.start⟩,
      .inr ⟨stubs, finished⟩⟩

/-- After a history in which no failed request did harm, all is in order. -/
theorem Orderly.after (h : Orderly g pieces filled) {history : List Request}
    (clean : Along Request.Clean g history) :
    ∃ pieces' filled', Orderly (g.after history) pieces' filled' := by
  induction history generalizing g pieces filled with
  | nil => exact ⟨pieces, filled, h⟩
  | cons r rest ih =>
    obtain ⟨first, others⟩ := clean
    obtain ⟨pieces', filled', next⟩ := h.perform first
    exact ih next others

theorem orderly_new (config : Config) : Orderly (new config) [] (fun _ => none) :=
  ⟨grown_new True config, .inl ((grown_new True config).fresh (by simp [Unstubbed]))⟩

/-- After a history in which no failed request lost a function, none is. -/
theorem Grown.after_lossless (h : Grown whole g pieces filled) {history : List Request}
    (lossless : Along Request.Lossless g history)
    (none' : ∀ func, ¬ g.Lost func) : ∀ func, ¬ (g.after history).Lost func := by
  induction history generalizing whole g pieces filled with
  | nil => exact none'
  | cons r rest ih =>
    obtain ⟨first, others⟩ := lossless
    obtain ⟨_, _, grown⟩ := h.performed r
    exact ih grown others (h.lossless first none')

end Generator
end Wasmill
