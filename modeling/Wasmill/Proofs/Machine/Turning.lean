import Wasmill.Proofs.World.Moves

/-! How the stack of tasks changes with a step.

The task on top changes, or a host function or code that it calls is put on top of it, or what is
below it goes on. -/
namespace Wasmill
open Code Steps

namespace Machine
open Exec

/-- What goes on when code has ended. -/
inductive Left : List Task → Task → List Task → Prop
  | answer {h h' : HostTask} {rest : List Task} : Left (.host h :: rest) (.host h') rest
  /-- Code failed, and the host function that called it fails. -/
  | fail {a b : Activation} {h : HostTask} {rest : List Task} (beside : a.Beside b) :
      Left (.host h :: .code a :: rest) (.code b) rest

/-- What a step can do to the tasks. -/
inductive Turn (w : World) : Task → List Task → Task → List Task → Prop
  | code {i : Instr} {a b : Activation} {t : Running} {rest : List Task}
      (own : i = .unwind ∨ ∃ next, Executes w a i next)
    (deed : Deed i ⟨w, a⟩ t) (beside : t.act.Beside b) : Turn w (.code a) rest (.code b) rest
  /-- No host function is there to call. -/
  | miss {a b : Activation} {rest : List Task} (beside : a.Beside b) :
      Turn w (.code a) rest (.code b) rest
  /-- Code calls a host function. -/
  | exit {a b : Activation} {h : HostTask} {rest : List Task} (beside : a.Beside b) :
      Turn w (.code a) rest (.host h) (.code b :: rest)
  | leave {a : Activation} {top : Task} {rest rest' : List Task} (left : Left rest top rest') :
      Turn w (.code a) rest top rest'
  | host {h h' : HostTask} {rest : List Task} : Turn w (.host h) rest (.host h') rest
  /-- A host function calls code. -/
  | enter {h h' : HostTask} {a : Activation} {rest : List Task} (stacked : a.Stacked) :
    Turn w (.host h) rest (.code a) (.host h' :: rest)
  /-- A host function ends. -/
  | resume {h : HostTask} {a b : Activation} {rest : List Task} (beside : a.Beside b) :
    Turn w (.host h) (.code a :: rest) (.code b) rest
  /-- Code fails when a host function answers it. -/
  | lose {h : HostTask} {a : Activation} {rest rest' : List Task} {top : Task}
      (left : Left rest top rest') :
    Turn w (.host h) (.code a :: rest) top rest'

variable {w w' : World} {top top' : Task} {below below' : List Task}

theorem Left.length (left : Left below top' below') : below'.length < below.length := by
  cases left with
  | answer => exact Nat.lt_succ_self _
  | fail => exact Nat.lt_succ_of_lt (Nat.lt_succ_self _)

theorem left_leave {a : Activation} {result : Except Error (Option Val)}
    (is : leave w a result below = .running w' top' below') :
    Left below top' below' := by
  unfold leave deliver at is
  split at is
  · split at is
    · cases is
      exact .answer
    · unfold failHost at is
      split at is
      · cases is
        exact .fail ⟨rfl, Nat.le_refl _, fun _ _ _ is => is⟩
      · cases is
  · cases is

/-- Code that goes on without a call of a host function made a step. -/
theorem went {a b : Activation} {Q : Next → Running → Prop}
    (leads : Leads Exec.step ⟨w, a⟩ Q fun _ _ => True)
    (stays : ∀ next t, Q next t → next.exits = false)
    (is : step w (.code a) below = .running w' (.code b) below) :
    ∃ pc t, Q (.go pc) t ∧ b = { t.act with pc } := by
  have is : codeStep w a below = .running w' (.code b) below := is
  unfold codeStep at is
  split at is
  · rename_i pc t stepped
    cases is
    exact ⟨pc, t, leads.ok stepped, rfl⟩
  · exact absurd (left_leave is).length (Nat.lt_irrefl _)
  · rename_i stepped
    cases stays _ _ (leads.ok stepped)
  · exact absurd (left_leave is).length (Nat.lt_irrefl _)

theorem turn_startHost {a b : Activation} (beside : a.Beside b) {w₀ : World} {optimized : Bool}
    {index : Nat} {args : List Slot}
    {back : Return} (is : startHost w b optimized index args back below = .running w' top' below') :
    Turn w₀ (.code a) below top' below' := by
  have thrown : ∀ {e w₁}, throwTo w₁ b back e below = .running w' top' below' →
      Turn w₀ (.code a) below top' below' := by
    rintro e w₁ ⟨⟩
    exact .miss (beside.trans ⟨rfl, Nat.le_refl _, fun _ _ _ is => is⟩)
  have generic :
      ∀ {w₁ host}, startGeneric w₁ b host index args back below = .running w' top' below' →
      Turn w₀ (.code a) below top' below' := by
    intro w₁ host is
    unfold startGeneric at is
    split at is
    · exact thrown is
    · cases is
      exact .exit beside
  unfold startHost at is
  dsimp only at is
  split at is
  · exact thrown is
  · split at is
    · exact generic is
    · exact generic is
    · split at is
      · exact thrown is
      · cases is
        exact .exit beside

theorem turn_codeStep {a : Activation} (is : codeStep w a below = .running w' top' below') :
    Turn w (.code a) below top' below' := by
  unfold codeStep at is
  split at is
  · rename_i stepped
    obtain ⟨i, own, goes⟩ := (behaves_step ⟨w, a⟩).ok stepped
    cases is
    rcases goes.deed with deed | ⟨_, _, ends⟩
    · exact .code own deed ⟨rfl, Nat.le_refl _, fun _ _ _ is => is⟩
    · cases ends
  · exact .leave (left_leave is)
  · rename_i stepped
    obtain ⟨i, _, goes⟩ := (behaves_step ⟨w, a⟩).ok stepped
    exact turn_startHost (goes.exits rfl).act is
  · exact .leave (left_leave is)

theorem activation_stacked (id entry : Nat) (args : Array Slot) (want : Option ValType) :
    (w.activation id entry args want).Stacked :=
  ⟨rfl, rfl, List.pairwise_pair.2 (Nat.zero_le _)⟩

theorem enter_stacked {id : Nat} {name : String} {args : List Val} {task : Task}
    (is : w.enter id name args = .ok (w', task)) :
    ∃ a : Activation, task = .code a ∧ a.Stacked := by
  unfold World.enter at is
  split at is
  · unfold World.enterIndex at is
    dsimp only at is
    split at is
    · cases is
    · split at is
      · cases is
      · obtain ⟨slots, _, is⟩ := Steps.except_ok is
        cases is
        exact ⟨_, rfl, activation_stacked _ _ _ _⟩
  · cases is

theorem turn_hostStep {h : HostTask} (is : hostStep w h below = .running w' top' below') :
    Turn w (.host h) below top' below' := by
  unfold hostStep at is
  split at is
  · dsimp only at is
    split at is
    · cases is
      exact .host
    · split at is
      · unfold failHost at is
        split at is
        · cases is
          exact .resume ⟨rfl, Nat.le_refl _, fun _ _ _ is => is⟩
        · cases is
      · rename_i entered
        obtain ⟨a, rfl, stacked⟩ := enter_stacked entered
        cases is
        exact .enter stacked
  · cases is
    exact .host
  · dsimp only at is
    split at is
    · unfold Machine.resume at is
      split at is
      · cases is
        exact .resume ⟨rfl, Nat.le_refl _, fun _ _ _ is => is⟩
      · split at is
        · cases is
          refine .resume ⟨rfl, Nat.le_of_eq Array.size_setIfInBounds.symm, fun k lt v is => ?_⟩
          exact (Array.getElem?_setIfInBounds_ne (Nat.ne_of_gt lt)).trans is
        · exact .lose (left_leave is)
    · cases is

/-- Every step that the machine goes on after turns the tasks in one of these ways. -/
theorem turn (is : step w top below = .running w' top' below') : Turn w top below top' below' := by
  unfold step at is
  cases top with
  | code a => exact turn_codeStep is
  | host h => exact turn_hostStep is

end Machine
end Wasmill
