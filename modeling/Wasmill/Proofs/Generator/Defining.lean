import Wasmill.Proofs.Generator.Consistent

/-! Defining functions.

Every step of a definition keeps the generator sound, whether it succeeds or not. If it succeeds, no
function that was given a body is lost: it is placed, or waits to be merged. -/
namespace Wasmill
open Code Steps List

namespace Generator
variable {whole : Prop} {g g' : Generator} {waiting : List CompileTask} {pieces : List Piece}
  {filled : Nat → Option Nat}

/-- Every function that was given a body is placed or waits. -/
def Complete (g : Generator) (waiting : List CompileTask) (pieces : List Piece) : Prop :=
  ∀ func ∈ g.defined, func ∈ placedFuncs pieces ∨ func ∈ waiting.map (·.func)

/-- How a step that defines functions ends. -/
def Defines (whole : Prop) (g : Generator) (pieces : List Piece) (x : Gen α) : Prop :=
  Leads x g
    (fun _ g' => ∃ new filled', Merges g g' pieces new ∧
      Consistent whole g' g'.waiting (pieces ++ new) filled' ∧
      (Complete g g.waiting pieces → Complete g' g'.waiting (pieces ++ new)))
    (fun _ g' => ∃ new filled', Merges g g' pieces new ∧
      Consistent False g' g'.waiting (pieces ++ new) filled')

/-- A compiled body is logged, and its chunk is that of the logged function. -/
theorem Consistent.compile (h : Consistent whole g waiting pieces filled) (slot : CompileSlot)
    (func : Nat) :
    Leads (Gen.compile slot func) g
      (fun output g' => Merges g g' pieces [] ∧ g'.helpers = g.helpers ∧ g'.defined = g.defined ∧
        Consistent whole g' waiting pieces filled ∧
        ∀ chunk, output = .ok chunk → ∃ f, (func, f) ∈ g'.log ∧ Chunk.ofFunction func f = .ok chunk)
      (fun _ g' => g' = g) := by
  unfold Gen.compile
  split
  · rw [Gen.leads_fail]
  split
  · rename_i f compiled
    rw [leads_bind, leads_modify, leads_pure]
    have grows : ∀ x ∈ g.log, x ∈ g.log.push (func, f) := fun x mem => Array.mem_push.2 (.inl mem)
    refine ⟨.of_same rfl id rfl, rfl, rfl, ?_, ?_⟩
    · refine { h with origin := fun s p mem =>
        (h.origin s p mem).mono grows, tasks := fun task mem chunk is => ?_ }
      obtain ⟨f, logged, made⟩ := h.tasks task mem chunk is
      exact ⟨f, grows _ logged, made⟩
    · intro chunk is
      exact ⟨f, Array.mem_push.2 (.inr rfl), is⟩
  · rw [leads_pure]
    exact ⟨.refl g pieces, rfl, rfl, h, nofun⟩

section
variable (h : Consistent whole g g.waiting pieces filled)
include h

theorem Consistent.finishDefs : Leads Gen.finishDefs g
      (fun _ g' => ∃ new filled', Merges g g' pieces new ∧ g'.waiting = [] ∧
        Consistent whole g' [] (pieces ++ new) filled' ∧
        (Complete g g.waiting pieces → Complete g' [] (pieces ++ new)))
      (fun _ g' => ∃ new filled', Merges g g' pieces new ∧ g'.waiting = [] ∧
        Consistent False g' [] (pieces ++ new) filled') := by
  rw [Gen.leads_finishDefs]
  have cleared : Consistent whole { g with helpers := g.helpers.map fun _ => [] }
    (g.waiting ++ []) pieces filled := by
    rw [append_nil]
    exact { h with early := fun frozen =>
      (h.early frozen).imp_left (congrArg (Option.map fun _ => [])) }
  have idle {g' : Generator} (same : g'.helpers = g.helpers.map fun _ => []) : g'.waiting = [] := by
    rw [Generator.waiting, same]
    cases g.helpers <;> rfl
  have merged {g' : Generator} {new : List Piece}
      (merges : Merges { g with helpers := g.helpers.map fun _ => [] } g' pieces new) :
      Merges g g' pieces new := by
    have stays : Merges g { g with helpers := g.helpers.map fun _ => [] } pieces [] :=
      .of_same rfl id rfl
    simpa using stays.trans (by simpa using merges)
  refine (Consistent.finishTasks cleared).imp ?_ ?_
  · rintro _ g' ⟨new, filled', merges, placed, helpers, defined, kept⟩
    refine ⟨new, filled', merged merges, idle helpers, kept, ?_⟩
    intro complete func mem
    rw [defined] at mem
    left
    rw [placedFuncs_append]
    rcases complete func mem with there | there
    · exact mem_append_left _ there
    · obtain ⟨task, waits, rfl⟩ := mem_map.1 there
      exact mem_append_right _ (placed task waits)
  · rintro _ g' ⟨new, filled', merges, helpers, kept⟩
    exact ⟨new, filled', merged merges, idle helpers, kept⟩

/-- The generator after its declarations are frozen. -/
theorem Consistent.startDefs : Leads Gen.startDefs g
      (fun _ g' => Merges g g' pieces [] ∧ g'.waiting = g.waiting ∧ g'.defined = g.defined ∧
        Consistent whole g' g'.waiting pieces filled)
      (fun _ _ => False) := by
  unfold Gen.startDefs
  rw [leads_modify]
  cases frozen : g.frozen with
  | true =>
    rw [if_pos rfl]
    exact ⟨.refl g pieces, rfl, rfl, h⟩
  | false =>
    rw [if_neg Bool.false_ne_true]
    have none' : g.waiting = [] := by simp [Generator.waiting, (h.early frozen).1]
    have none'' : ({ g with
        frozen := true
        free := List.replicate (max 1 (g.config.threads.getD 1)) { env := g.env }
        helpers := if max 1 (g.config.threads.getD 1) > 1 then some []
          else none } : Generator).waiting = [] := by
      simp only [Generator.waiting]
      split <;> rfl
    rw [none'] at h
    refine ⟨.of_same rfl (fun _ => rfl) rfl, none''.trans none'.symm, rfl, ?_⟩
    rw [none'']
    exact { h with early := by rintro ⟨⟩ }

theorem Consistent.startDef : Defines whole g pieces Gen.startDef := by
  unfold Defines
  rw [Gen.leads_startDef]
  refine h.startDefs.imp ?_ (fun _ _ => False.elim)
  rintro _ g₁ ⟨merges, waiting, defined, kept⟩
  have kept₁ : Consistent whole g₁ g₁.waiting (pieces ++ []) filled := by simpa using kept
  split
  · refine ⟨[], filled, merges.stay (.of_same rfl id rfl), { kept₁ with }, fun complete => ?_⟩
    rw [append_nil]
    show Complete g₁ g₁.waiting pieces
    rw [Complete, waiting, defined]
    exact complete
  · rename_i task rest _ all
    rw [all] at kept
    have next : Consistent whole { g₁ with helpers := some rest } (task :: rest) pieces filled := by
      refine { kept with early := fun frozen => ?_ }
      rw [Generator.waiting, (kept.early frozen).1] at all
      cases all
    have stays : Merges g₁ { g₁ with helpers := some rest } pieces [] := .of_same rfl id rfl
    have merged := merges.stay (by simpa using stays)
    refine (Consistent.finishTask next).imp ?_ ?_
    · rintro _ g' ⟨new, filled', merges', placed, helpers, defined', kept'⟩
      have left' : g'.waiting = rest := by simp [Generator.waiting, helpers]
      have merges' : Merges g g' pieces new := by simpa using merged.trans (by simpa using merges')
      refine ⟨new, filled', merges'.stay (.of_same rfl id rfl), ?_, fun complete func mem => ?_⟩
      · show Consistent _ _ g'.waiting _ _
        rw [left']
        exact { kept' with }
      · have mem : func ∈ g.defined := defined ▸ defined' ▸ mem
        show _ ∨ func ∈ g'.waiting.map _
        rw [placedFuncs_append, left']
        rcases complete func mem with there | there
        · exact .inl (mem_append_left _ there)
        · rw [← waiting, all, map_cons] at there
          rcases mem_cons.1 there with rfl | there
          · exact .inl (mem_append_right _ placed)
          · exact .inr there
    · rintro e g' ⟨new, filled', merges', helpers, kept'⟩
      have left' : g'.waiting = rest := by simp [Generator.waiting, helpers]
      rw [left']
      exact ⟨new, filled', by simpa using merged.trans (by simpa using merges'), kept'⟩
  · exact ⟨[], filled, merges, kept₁.broken⟩

theorem Consistent.finishDef (func : Nat) (slot : CompileSlot) :
    Defines whole g pieces (Gen.finishDef func slot) := by
  unfold Defines
  rw [Gen.leads_finishDef]
  split
  · exact ⟨[], filled, .refl g pieces, by simpa using h.broken⟩
  rename_i isDefined
  split
  · exact ⟨[], filled, .of_same rfl id rfl, by rw [append_nil]; exact { h.broken with }⟩
  rename_i unseen
  have isDefined : g.env.isDefined func := by simpa using isDefined
  have unseen : func ∉ g.defined := by simpa using unseen
  have keeps :
      Consistent whole { g with defined := func :: g.defined } g.waiting pieces filled := by
    refine { h with
      known := fun func mem => mem_cons_of_mem _ (h.known func mem), bodies := ?_
      closed := fun finished => absurd ((h.closed finished).2.2 func isDefined) unseen }
    intro func' mem
    rcases mem_cons.1 mem with rfl | mem
    · exact isDefined
    · exact h.bodies func' mem
  split
  · exact ⟨[], filled, .of_same rfl id rfl, by rw [append_nil]; exact { keeps.broken with }⟩
  refine (keeps.compile slot func).imp ?_ ?_
  rotate_left
  · rintro _ _ rfl
    exact ⟨[], filled, .of_same rfl id rfl, by rw [append_nil]; exact keeps.broken⟩
  rintro output g₁ ⟨merges, helpers, defined, kept, compiled⟩
  have stays : Merges g { g with defined := func :: g.defined } pieces [] := .of_same rfl id rfl
  have merged : Merges g g₁ pieces [] := by simpa using stays.trans (by simpa using merges)
  have waits : g₁.waiting = g.waiting := congrArg (Option.getD · []) helpers
  -- the new task is for a function that is not placed and does not wait
  have grown : Consistent whole g₁ (g.waiting ++ [⟨slot, func, output⟩]) pieces filled := by
    have fresh : func ∉ placedFuncs pieces ++ g.waiting.map (·.func) :=
      fun mem => unseen (h.known func mem)
    refine { kept with once := ?_, known := ?_, tasks := ?_, closed := fun finished => ?_ }
    · rw [map_append, ← append_assoc]
      refine nodup_append.2 ⟨kept.once, by simp, ?_⟩
      intro x mem y last same
      simp only [map_cons, map_nil, mem_singleton] at last
      exact fresh (by rw [← last, ← same]; exact mem)
    · intro x mem
      rw [map_append, ← append_assoc] at mem
      rcases mem_append.1 mem with mem | last
      · exact kept.known x mem
      · simp only [map_cons, map_nil, mem_singleton] at last
        rw [defined, last]
        exact mem_cons_self
    · intro task mem chunk is
      rcases mem_append.1 mem with mem | last
      · exact kept.tasks task mem chunk is
      · cases mem_singleton.1 last
        exact compiled chunk is
    · rw [merged.same] at finished
      exact absurd ((h.closed finished).2.2 func isDefined) unseen
  have completes :
      Complete g g.waiting pieces → Complete g₁ (g.waiting ++ [⟨slot, func, output⟩]) pieces := by
    intro complete x mem
    rw [defined] at mem
    rw [map_append, mem_append]
    rcases mem_cons.1 mem with rfl | mem
    · exact .inr (.inr (mem_singleton.2 rfl))
    · exact (complete x mem).imp_right .inl
  split
  · rename_i tasks is
    have all : g.waiting = tasks := by rw [← waits]; simp [Generator.waiting, is]
    rw [all] at grown completes
    refine ⟨[], filled, merged.stay (.of_same rfl id rfl), ?_, ?_⟩
    · rw [append_nil]
      refine { grown with early := fun frozen => ?_ }
      have := (grown.early frozen).1
      rw [is] at this
      cases this
    · rw [append_nil, all]
      exact completes
  · rename_i is
    have none' : g.waiting = [] := by rw [← waits]; simp [Generator.waiting, is]
    rw [none'] at grown completes ⊢
    refine (Consistent.finishTask grown).imp ?_ ?_
    · rintro _ g' ⟨new, filled', merges', placed, helpers', defined', kept'⟩
      have none'' : g'.waiting = [] := by simp [Generator.waiting, helpers', is]
      rw [none'']
      refine ⟨new, filled', by simpa using merged.trans (by simpa using merges'), kept', ?_⟩
      intro complete x mem
      rw [defined'] at mem
      rw [placedFuncs_append]
      left
      rcases completes complete x mem with there | there
      · exact mem_append_left _ there
      · simp only [nil_append, map_cons, map_nil, mem_singleton] at there
        rw [there]
        exact mem_append_right _ placed
    · rintro e g' ⟨new, filled', merges', helpers', kept'⟩
      have none'' : g'.waiting = [] := by simp [Generator.waiting, helpers', is]
      rw [none'']
      exact ⟨new, filled', by simpa using merged.trans (by simpa using merges'), kept'⟩

theorem Consistent.define (func : Nat) (body : ByteArray) (offset : Nat) :
    Defines whole g pieces (Gen.define func body offset) := by
  unfold Defines Gen.define
  rw [leads_bind]
  refine h.startDef.imp ?_ (fun _ _ h => h)
  rintro slot g₁ ⟨new, filled₁, merges, kept, complete⟩
  refine (kept.finishDef func (slot.setBody body offset)).imp ?_ ?_
  · rintro _ g₂ ⟨new', filled₂, merges', kept', complete'⟩
    exact ⟨new ++ new', filled₂, merges.trans merges', by rw [← append_assoc]; exact kept',
      by rw [← append_assoc]; exact complete' ∘ complete⟩
  · rintro _ g₂ ⟨new', filled₂, merges', kept'⟩
    exact ⟨new ++ new', filled₂, merges.trans merges', by rw [← append_assoc]; exact kept'⟩

end
end Generator
end Wasmill
