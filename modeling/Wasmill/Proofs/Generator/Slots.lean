import Wasmill.Proofs.Generator.FittingCode

/-! Compile slots, and the declarations that they are for.

Every slot that was made is free, holds a task, is held by whoever opened it, or was lost with a
function that is not defined. Once definitions begin nothing is declared any more, so a module has
the environment that its functions were compiled against. -/
namespace Wasmill
open Code Steps

namespace Generator
variable {α : Type} {g g' : Generator} {env : Env} {slot : CompileSlot} {config : Config}
  {history : List Request}

/-! ### What becomes of slots -/

/-- How many slots are free or hold a task. -/
def pool (g : Generator) : Nat := g.free.length + g.waiting.length

/-- However the computation ends, so many slots come back. -/
def GivesBack (n : Nat) (x : Gen α) (g : Generator) : Prop :=
  Leads x g (fun _ g' => g'.pool = g.pool + n) fun _ g' => g'.pool = g.pool + n

theorem finishTask_frees (task : CompileTask) (g : Generator) :
    Leads (Gen.finishTask task) g (fun _ g' =>
      g'.free = task.slot :: g.free ∧ g'.waiting = g.waiting)
      fun _ g' => g'.free = task.slot :: g.free ∧ g'.waiting = g.waiting := by
  rw [Gen.leads_finishTask]
  split
  · exact leads_any.imp (fun _ _ _ => ⟨rfl, rfl⟩) fun _ _ _ => ⟨rfl, rfl⟩
  · exact ⟨rfl, rfl⟩

theorem pool_freed (free : g'.free = slot :: g.free ∧ g'.waiting = g.waiting) :
    g'.pool = g.pool + 1 := by
  rw [pool, free.1, free.2, List.length_cons, pool]
  omega

theorem givesBack_finishTask (task : CompileTask) (g : Generator) :
    GivesBack 1 (Gen.finishTask task) g :=
  (finishTask_frees task g).imp (fun _ _ => pool_freed) fun _ _ => pool_freed

theorem givesBack_finishTasks (tasks : List CompileTask) (g : Generator) :
    GivesBack tasks.length (Gen.finishTasks tasks) g := by
  induction tasks generalizing g with
  | nil => exact leads_pure.2 rfl
  | cons task tasks ih =>
    -- the other tasks are merged whether or not the first one fails
    have others (g₁ : Generator) (first : g₁.pool = g.pool + 1) :
        Leads (Gen.finishTasks tasks) g₁ (fun _ g' => g'.pool = g.pool + (tasks.length + 1))
          fun _ g' => g'.pool = g.pool + (tasks.length + 1) :=
      (ih g₁).imp (fun _ _ _ => by omega) fun _ _ _ => by omega
    exact Gen.leads_finishTasks_cons.2
      ((givesBack_finishTask task g).imp (fun _ => others) fun _ => others)

theorem givesBack_finishDefs (g : Generator) : GivesBack 0 Gen.finishDefs g := by
  have taken :
      ({ g with helpers := g.helpers.map fun _ => [] } : Generator).pool + g.waiting.length =
      g.pool := by
    unfold pool waiting
    cases g.helpers <;> simp
  exact Gen.leads_finishDefs.2
    ((givesBack_finishTasks g.waiting _).imp (fun _ _ _ => by omega) fun _ _ _ => by omega)

instance : Lasting fun g g' : Generator => g'.pool = g.pool :=
  ⟨fun _ => rfl, fun one two => two.trans one⟩

theorem givesBack_finishCodegen (g : Generator) : GivesBack 0 Gen.finishCodegen g := by
  cases unfinished : g.stubs with
  | some stubs => exact (Gen.leads_finishCodegen_done unfinished).2 rfl
  | none =>
    have bodies :
        Respects (fun g g' : Generator => g'.pool = g.pool) (fun _ => True) Gen.finishDefs :=
      ⟨fun g => (givesBack_finishDefs g).imp (fun _ _ => id) fun _ _ h => ⟨h, trivial⟩⟩
    exact leads_finishCodegen (fun g g' made => by rw [made.same]; rfl) bodies unfinished rfl

theorem givesBack_declare (d : Declaration) (g : Generator) :
    GivesBack 0 (Request.declare d).perform g := by
  refine Gen.leads_declare.2 ?_
  cases is : g.declared d with
  | error e => rfl
  | ok g' =>
    dsimp only
    rw [(declared_ok is).same]
    rfl

/-- How many slots are made when definitions begin. -/
def toMake (g : Generator) : Nat := if g.frozen then 0 else max 1 (g.config.threads.getD 1)

/-- The oldest task cannot be merged. -/
def Blocked (g : Generator) (e : Error) : Prop :=
  ∃ task rest, g.waiting = task :: rest ∧
    (Gen.finishTask task { g with helpers := some rest }).1 = .error e

theorem startDefs_frozen (g : Generator) :
    Leads Gen.startDefs g (fun _ g' => g'.frozen = true) fun _ _ => False := by
  unfold Gen.startDefs
  rw [leads_modify]
  split
  · assumption
  · rfl

theorem startDef_frozen (g : Generator) :
    Leads Gen.startDef g (fun _ g' => g'.frozen = true) fun _ g' => g'.frozen = true := by
  rw [Gen.leads_startDef]
  refine (startDefs_frozen g).imp (fun _ g₁ frozen => ?_) fun _ _ => False.elim
  split
  · exact frozen
  · rw [Gen.leads_finishTask]
    split
    · exact leads_any.imp (fun _ _ _ => frozen) fun _ _ _ => frozen
    · exact frozen
  · exact frozen

section
variable (h : Fits env g)
include h

theorem Fits.pool_unfrozen (unfrozen : g.frozen = false) : g.pool = 0 := by
  obtain ⟨free, helpers, _⟩ := h.early unfrozen
  rw [pool, waiting, free, helpers]
  rfl

theorem givesBack_startDefs : GivesBack g.toMake Gen.startDefs g := by
  unfold GivesBack Gen.startDefs toMake
  rw [leads_modify]
  cases frozen : g.frozen with
  | true => rfl
  | false =>
    rw [h.pool_unfrozen frozen, Nat.zero_add]
    simp only [pool, waiting, Bool.false_eq_true, if_false, List.length_replicate]
    split <;> rfl

/-- A slot is taken, unless there is none or the oldest task fails. -/
theorem startDef_takes : Leads Gen.startDef g (fun _ g' => g'.pool + 1 = g.pool + g.toMake)
    fun e g' => g'.pool = g.pool + g.toMake ∧
      (e = .internal .noCompileSlot ∧ g.pool = 0 ∨ g.Blocked e) := by
  rw [Gen.leads_startDef]
  unfold Gen.startDefs toMake
  rw [leads_modify]
  cases frozen : g.frozen with
  | true =>
    rw [if_pos rfl, if_pos rfl, Nat.add_zero]
    split
    · rename_i slot free is
      simp only [pool, waiting, is, List.length_cons]
      omega
    · rename_i task rest none' is
      refine (leads_eq.and (finishTask_frees task _)).imp (fun _ g₁ ⟨_, free, waits⟩ => ?_)
        fun e g₁ ⟨fails, free, waits⟩ => ?_
      · have left : ({ g₁ with free := [] } : Generator).pool = rest.length := by
          rw [pool, show ({ g₁ with free := [] } : Generator).waiting = rest from waits,
            List.length_nil, Nat.zero_add]
        rw [left, pool, none', is, List.length_cons, List.length_nil, Nat.zero_add]
      · refine ⟨?_, .inr ⟨task, rest, is, congrArg Prod.fst fails⟩⟩
        rw [pool, free, waits, pool, none', is]
        simp [waiting, Nat.add_comm]
    · rename_i none' idle
      exact ⟨rfl, .inl ⟨rfl, by rw [pool, none', idle]; rfl⟩⟩
  | false =>
    obtain ⟨n, is⟩ : ∃ n, max 1 (g.config.threads.getD 1) = n + 1 :=
      ⟨max 1 (g.config.threads.getD 1) - 1, by omega⟩
    rw [h.pool_unfrozen frozen, is]
    simp only [pool, waiting, Bool.false_eq_true, if_false, List.replicate_succ,
      List.length_replicate]
    split <;> simp

/-- A slot that is given back comes back, unless its function is not defined. -/
theorem givesBack_finishDef (func : Nat) (own : slot.env = env) :
    GivesBack (if g.env.isDefined func then 1 else 0) (Gen.finishDef func slot) g := by
  refine Gen.leads_finishDef.2 ?_
  split
  · rename_i undefined
    rw [if_neg (show ¬ g.env.isDefined func = true by simpa using undefined)]
    rfl
  rename_i isDefined
  have isDefined : g.env.isDefined func = true := by simpa using isDefined
  rw [if_pos isDefined]
  split
  · exact pool_freed ⟨rfl, rfl⟩
  split
  · exact pool_freed ⟨rfl, rfl⟩
  have compiled : Leads (Gen.compile slot func) { g with defined := func :: g.defined }
    (fun _ g₁ => g₁.pool = g.pool)
      fun _ _ => False := by
    rw [h.same, isDefined_iff] at isDefined
    obtain ⟨sig, known⟩ := Env.exists_sigOf? isDefined.2 h.fit.funcs
    unfold Gen.compile
    rw [own, known]
    dsimp only
    split
    · rw [leads_bind, leads_modify, leads_pure]
      rfl
    · exact leads_pure.2 rfl
  refine compiled.imp (fun output g₁ held => ?_) fun _ _ => False.elim
  rw [← held]
  split
  · rename_i tasks is
    rw [pool, pool, waiting, waiting, is]
    exact congrArg (g₁.free.length + ·) List.length_append
  · exact givesBack_finishTask _ g₁

end

/-! ### Accounts -/

/-- How many slots were made, are held by whoever opened them, and were lost. -/
structure Ledger where
  made : Nat := 0
  held : Int := 0
  lost : Nat := 0

/-- How many slots a request can open. -/
def opened (g : Generator) : Nat := if (Gen.startDef g).1.isOk then 1 else 0

def Ledger.next (l : Ledger) (g : Generator) : Request → Ledger
  | .startDefs => { l with made := l.made + g.toMake }
  | .openSlot => { l with made := l.made + g.toMake, held := l.held + g.opened }
  | .closeSlot func _ =>
    { l with held := l.held - 1, lost := l.lost + if g.env.isDefined func then 0 else 1 }
  | .define func _ _ =>
    { l with made := l.made + g.toMake, lost := l.lost + if g.env.isDefined func then 0 else g.opened }
  | _ => l

def Ledger.after (l : Ledger) (g : Generator) : List Request → Ledger
  | [] => l
  | r :: rest => (l.next g r).after (r.perform g).2 rest

/-- Every slot is accounted for. -/
def Balanced (l : Ledger) (g : Generator) : Prop := g.pool + l.held + l.lost = l.made

theorem balanced_perform {l : Ledger} (balanced : Balanced l g) (h : Fits env g) {r : Request}
    (own : r.Own g) :
    Balanced (l.next g r) (r.perform g).2 := by
  refine Leads.state (P := Balanced (l.next g r)) ?_
  have kept {n : Nat} (moves : GivesBack n r.perform g)
      (account : (l.next g r).held + (l.next g r).lost + l.made + n =
        l.held + l.lost + (l.next g r).made) :
      Leads r.perform g (fun _ => Balanced (l.next g r)) fun _ => Balanced (l.next g r) := by
    unfold Balanced at *
    exact moves.imp (fun _ _ _ => by omega) fun _ _ _ => by omega
  unfold Balanced at balanced
  cases r with
  | declare d => exact kept (givesBack_declare d g) (Int.add_zero _)
  | startDefs => exact kept (givesBack_startDefs h) (by simp only [Ledger.next]; omega)
  | openSlot =>
    refine leads_bind.2 ((leads_eq.and (startDef_takes h)).imp
      (fun slot g' ⟨is, taken⟩ => leads_pure.2 ?_) fun e g' ⟨is, kept, _⟩ => ?_)
    · simp only [Balanced, Ledger.next, opened, is, Except.isOk, Except.toBool, if_true]
      omega
    · simp only [Balanced, Ledger.next, opened, is, Except.isOk, Except.toBool,
        Bool.false_eq_true, if_false]
      omega
  | closeSlot func slot =>
    refine kept (givesBack_finishDef h func (own.2.trans h.same)) ?_
    simp only [Ledger.next]
    split <;> omega
  | define func body offset =>
    have same : Leads Gen.startDef g (fun _ g' => g'.env = g.env) fun _ _ => True :=
      (Respects.leads (R := Alike) (E := fun _ => True) g).imp (fun _ _ alike => alike.env)
        fun _ _ _ => trivial
    refine leads_bind.2 ((((leads_eq.and (startDef_takes h)).and h.startDef).and same).imp ?_ ?_)
    · rintro slot g₁ ⟨⟨⟨is, taken⟩, ⟨fits, _⟩, own⟩, same⟩
      have account {g' : Generator}
          (back : g'.pool = g₁.pool + if g₁.env.isDefined func then 1 else 0) :
          Balanced (l.next g (.define func body offset)) g' := by
        rw [same] at back
        simp only [Balanced, Ledger.next, opened, is, Except.isOk, Except.toBool, if_true]
        split at back <;> rename_i isDefined <;> simp only [isDefined, if_true, Bool.false_eq_true,
          if_false] <;> omega
      exact (givesBack_finishDef fits func (show (slot.setBody body offset).env = env from own)).imp
        (fun _ _ => account) fun _ _ => account
    · rintro e g₁ ⟨⟨⟨is, kept, _⟩, _⟩, _⟩
      simp only [Balanced, Ledger.next, opened, is, Except.isOk, Except.toBool, Bool.false_eq_true,
        if_false, ite_self]
      omega
  | finishDefs => exact kept (givesBack_finishDefs g) (Int.add_zero _)
  | finishCodegen => exact kept (givesBack_finishCodegen g) (Int.add_zero _)

theorem balanced_after {l : Ledger} (balanced : Balanced l g) (h : Fits env g)
    (fits : ∀ r ∈ history, r.Fits)
    (own : Along Request.Own g history) : Balanced (l.after g history) (g.after history) := by
  induction history generalizing g env l with
  | nil => exact balanced
  | cons r rest ih =>
    obtain ⟨_, performed, _⟩ := h.perform (fits r List.mem_cons_self) own.1
    exact ih (balanced_perform balanced h own.1) performed
      (fun r mem => fits r (List.mem_cons_of_mem _ mem)) own.2

/-- Every slot that was made is free, holds a task, is held by whoever opened it, or was lost with a
function that is not defined, whatever failed before. A slot is refused only when all of them are
held or lost, or because the oldest task fails. -/
theorem slots_accounted (limits : config.limits.Fits) (fits : ∀ r ∈ history, r.Fits)
    (own : Along Request.Own (new config) history) :
    let g := (new config).after history
    let l := Ledger.after {} (new config) history
    (g.free.length + g.waiting.length : Int) + l.held + l.lost = l.made ∧
    ∀ e g', Request.openSlot.perform g = (.error e, g') →
      (e = .internal .noCompileSlot ∧ l.held + l.lost = l.made) ∨ g.Blocked e := by
  intro g l
  have balanced : Balanced l g := balanced_after rfl (fits_new limits) fits own
  obtain ⟨env, h, _⟩ := (fits_new limits).after fits own
  unfold Balanced at balanced
  refine ⟨by rw [← balanced, pool, Int.natCast_add], fun e g' refused => ?_⟩
  have opens : Leads Request.openSlot.perform g (fun _ _ => True) fun e _ => _ ∨ _ :=
    leads_bind.2 ((startDef_takes h).imp (fun _ _ _ => leads_pure.2 trivial) fun _ _ h => h.2)
  refine (opens.error refused).imp_left fun ⟨is, none'⟩ => ⟨is, ?_⟩
  rw [none'] at balanced
  omega

/-- A slot is opened and comes back with a function. -/
def reopened (func : Nat) : List Request :=
  [.declare (.sig ⟨[], none⟩), .declare (.func 0), .openSlot,
    .closeSlot func { env := ((new {}).after [.declare (.sig ⟨[], none⟩),
      .declare (.func 0)]).env, body := ⟨#[0x00, 0x0b]⟩ }]

theorem reopened_own (func : Nat) : Along Request.Own (new {}) (reopened func) :=
  ⟨trivial, trivial, trivial, ⟨rfl, rfl⟩, trivial⟩

theorem reopened_fits (func : Nat) : ∀ r ∈ reopened func, r.Fits := by
  intro r mem
  simp only [reopened, List.mem_cons, List.not_mem_nil, or_false] at mem
  rcases mem with rfl | rfl | rfl | rfl <;> trivial

theorem slots_accounted_reopened :
    let g := (new {}).after (reopened 0)
    let l := Ledger.after {} (new {}) (reopened 0)
    (g.free.length + g.waiting.length : Int) + l.held + l.lost = l.made ∧ l.made = 1 ∧ l.held = 0 ∧
      l.lost = 0 :=
  ⟨(slots_accounted Limits.fits_default (reopened_fits 0) (reopened_own 0)).1, rfl, rfl, rfl⟩

/-- With a function that is not defined, the slot does not come back, and then none can be opened
though none is held. -/
theorem undefined_loses_slot :
    let g := (new {}).after (reopened 7)
    let l := Ledger.after {} (new {}) (reopened 7)
    Along Request.Own (new {}) (reopened 7) ∧ l.made = 1 ∧ l.held = 0 ∧
      g.free.length + g.waiting.length = 0 ∧
    (Request.openSlot.perform g).1 = .error (.internal .noCompileSlot) :=
  ⟨reopened_own 7, rfl, rfl, rfl, rfl⟩

/-! ### Final declarations -/

/-- Requests that begin definitions. -/
def Request.Begins : Request → Prop
  | .startDefs | .openSlot | .define .. | .finishCodegen => True
  | _ => False

theorem Request.Begins.frozen {r : Request} (starts : r.Begins)
    (early : g.frozen = false → g.stubs = none) :
    (r.perform g).2.frozen = true := by
  refine Leads.state (P := fun g' : Generator => g'.frozen = true) ?_
  cases r with
  | startDefs => exact (startDefs_frozen g).imp (fun _ _ => id) fun _ _ => False.elim
  | openSlot =>
    exact leads_bind.2 ((startDef_frozen g).imp (fun _ _ frozen => leads_pure.2 frozen) fun _ _ => id)
  | define func body offset =>
    refine leads_bind.2 ((startDef_frozen g).imp (fun slot g₁ frozen => ?_) fun _ _ => id)
    exact (Respects.leads (R := Alike) (E := fun _ => True) g₁).imp
      (fun _ _ alike => alike.frozen frozen)
      fun _ _ alike => alike.1.frozen frozen
  | finishCodegen =>
    cases unfinished : g.stubs with
    | none =>
      have moves := leads_finishCodegen (fun _ _ => Made.alike) inferInstance unfinished
        (Lasting.refl { g with frozen := true })
      exact moves.imp (fun _ _ alike => alike.frozen rfl) fun _ _ alike => alike.frozen rfl
    | some stubs =>
      refine (Gen.leads_finishCodegen_done unfinished).2
        ((Bool.not_eq_false _).mp fun unfrozen => ?_)
      cases unfinished.symm.trans (early unfrozen)
  | _ => exact starts.elim

end Generator
end Wasmill
