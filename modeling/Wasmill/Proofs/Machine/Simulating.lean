import Wasmill.Proofs.Machine.Leaving
import Wasmill.Proofs.Machine.Returning

/-! The machine runs lowered functions as they are meant.

Wherever a function is, the machine is at the line of its next instruction, with the values of the
function in the slots of their numbers; what comes next for the function is what the machine does
next. Calls are made by the machine, and the function goes on with what they return. -/
namespace Wasmill
open Code Steps Ssa.Function Option Array
variable {w w' : World} {a : Activation} {below : List Task} {place' id : Nat}
  {resume : Slot → Ssa.State} {act : Action}
  {value : Option Slot} {code : ByteArray}

/-! ### Instances that have the code -/

/-- The instance has this module and this code. -/
def World.Has (w : World) (id : Nat) (m : Module) (code : ByteArray) : Prop :=
  ∃ i, w.instances[id]? = some i ∧ i.module = m ∧ i.code = code

theorem World.Has.within {m : Module} (h : w.Has a.inst m code) : Running.Within ⟨w, a⟩ m code := by
  obtain ⟨i, is, module, code⟩ := h
  have self : Running.self ⟨w, a⟩ = i := by
    unfold Running.self
    rw [getD_eq_getD_getElem?, is]
    rfl
  exact ⟨by rw [self]; exact module, by rw [self]; exact code⟩

theorem World.Move.has (move : w.Move w') {m : Module} (h : w.Has id m code) :
    w'.Has id m code := by
  cases move with
  | inst made =>
    obtain ⟨i, is, own⟩ := h
    exact ⟨i,
      (getElem?_push ..).trans
      (by rw [if_neg (Nat.ne_of_lt (Array.getElem?_eq_some_iff.1 is).1), is]), own⟩
  | @onInstance k f same =>
    -- where an instance changes, it keeps its module and its code
    obtain ⟨i, is, rfl, rfl⟩ := h
    unfold World.Has World.onInstance
    rw [getElem?_modify]
    split
    · rename_i here
      refine ⟨f i, by rw [is]; rfl, ?_⟩
      rw [show _ = _ from same i (here ▸ is)]
      exact ⟨rfl, rfl⟩
    · exact ⟨i, is, rfl, rfl⟩
  | register engine sig =>
    unfold World.Has
    rw [World.instances_register]
    exact h
  | aside _ instances =>
    unfold World.Has
    rw [instances]
    exact h
  | _ => exact h

theorem World.Moves.has (moves : w.Moves w') {m : Module} (h : w.Has id m code) :
    w'.Has id m code := by
  induction moves with
  | refl => exact h
  | tail _ move ih => exact move.has ih

namespace Machine
variable {t : Running} {top : Task}

theorem running_moves {top' : Task} {below' : List Task}
    (is : step w top below = .running w' top' below') : w.Moves w' := by
  have moves := step_moves w top below
  rwa [is] at moves

theorem returns_moves {rest : List Task} {depth : Nat}
    (returns : Returns below depth w top rest value w' a) : w.Moves w' := by
  induction returns with
  | now one returning is => exact running_moves is
  | later is deeper back ih => exact (running_moves is).trans ih

/-- Interrupts are not noticed at calls and backward branches, or none is asked for. -/
def Uninterrupted (w : World) (a : Activation) : Prop :=
  ¬ (a.signals ∧ (w.instances.getD a.inst default).interrupted)

instance : Decidable (Uninterrupted w a) := inferInstanceAs (Decidable (¬ _))

/-- The function makes one step, and the machine with it. A call lasts until it returns. -/
inductive StepsWith (f : Ssa.Function) (below : List Task) (w : World) (a : Activation)
    (s : Ssa.State) :
    World → Activation → Ssa.State → Prop
  | on {s' : Ssa.State} {w' : World} {a' : Activation} (next : f.next s = .on s')
      (quiet : Uninterrupted w a)
    (is : step w (.code a) below = .running w' (.code a') below) : StepsWith f below w a s w' a' s'
  | value {v : Slot} {place : Nat} {resume : Slot → Ssa.State} {w' : World} {a' : Activation}
    (next : f.next s = .meet (.value v) place resume)
    (is : step w (.code a) below = .running w' (.code a') below) :
    StepsWith f below w a s w' a' (resume v)
  | action {act : Action} {v : Slot} {place : Nat} {resume : Slot → Ssa.State} {w₁ w' : World}
      {a' : Activation}
    (next : f.next s = .meet (.action act) place resume) (quiet : Uninterrupted w a)
    (answer : w.answer a.inst act = some (.value v w₁))
    (is : step w (.code a) below = .running w' (.code a') below) :
    StepsWith f below w a s w' a' (resume v)
  | call {act : Action} {value : Option Slot} {place : Nat} {resume : Slot → Ssa.State}
      {w₁ w' : World} {a₁ a' : Activation}
    (next : f.next s = .meet (.action act) place resume) (quiet : Uninterrupted w a)
    (answer : w.answer a.inst act = none)
    (is : step w (.code a) below = .running w₁ (.code a₁) below)
    (returns : Returns below a.frames.size w₁ (.code a₁) below value w' a') :
    StepsWith f below w a s w' a' (resume (value.getD 0))

/-- The function makes some steps, and the machine with it. -/
inductive RunsWith (f : Ssa.Function) (below : List Task) (w : World) (a : Activation)
    (s : Ssa.State) :
    World → Activation → Ssa.State → Prop
  | refl : RunsWith f below w a s w a s
  | step {w₁ w₂ : World} {a₁ a₂ : Activation} {s₁ s₂ : Ssa.State}
      (first : RunsWith f below w a s w₁ a₁ s₁)
    (goes : StepsWith f below w₁ a₁ s₁ w₂ a₂ s₂) : RunsWith f below w a s w₂ a₂ s₂

/-- The machine leaves the code with the trap, at once or by way of a stub. Code that is stopped
uses up the request. -/
def Traps (below : List Task) (w : World) (a : Activation) (info : TrapInfo) : Prop :=
  step w (.code a) below = leave w a (.error (.trap info)) below ∨
    ∃ w' a', a.Beside a' ∧
      (w' = w ∨ info.trap = .interrupted ∧ w' = w.onInstance a.inst fun i =>
        { i with interrupted := false }) ∧
      step w (.code a) below = .running w' (.code a') below ∧
        step w' (.code a') below = leave w' a' (.error (.trap info)) below

/-- The machine makes the call: its arguments begin a new frame, for which the callee is entered at
once or by way of a far jump. -/
def MakesCall (pieces : List Piece) (below : List Task) (w : World) (a : Activation)
    (act : Action) : Prop :=
  ∃ w' entry owner caller args dst next goal, w.Calls pieces a.inst act w' entry owner caller args ∧
    step w (.code a) below = .running w' (.code (a.called args dst next goal owner caller)) below ∧
    (goal = entry ∨ step w' (.code (a.called args dst next goal owner caller)) below =
      .running w' (.code (a.called args dst next entry owner caller)) below)

/-- What the machine does when this comes next. -/
def Shown (pieces : List Piece) (func : Nat) (below : List Task) (w : World) (a : Activation) :
    Ssa.NextMove → Prop
  | .on _ => Uninterrupted w a → ∃ a', step w (.code a) below = .running w (.code a') below
  | .meet (.value _) _ _ => ∃ a', step w (.code a) below = .running w (.code a') below
  | .meet (.trap t) place _ =>
    Traps below w a { trap := t, func := some func, offset := some place }
  | .meet (.action act) place _ => Uninterrupted w a →
    match w.answer a.inst act with
    | some (.value _ w') => ∃ a', step w (.code a) below = .running w' (.code a') below
    | some (.trap t) => Traps below w a { trap := t, func := some func, offset := some place }
    | some (.failure e w') => step w (.code a) below = leave w' a (.error e) below
    | none => MakesCall pieces below w a act
  | .ret value => Returning w a value ∧
    (a.frames.size = 1 → step w (.code a) below = leave w { a with frames := #[] }
      (.ok (a.want.map fun ty => (value.getD a.first).toVal ty)) below)
  | .trap t place => Traps below w a { trap := t, func := some func, offset := some place }
  | .stuck => True

theorem codeStep_go {pc : Nat}
    (is : Exec.step ⟨w, a⟩ = (.ok (.go pc), t)) :
    step w (.code a) below = .running t.world (.code { t.act with pc }) below := by
  show codeStep w a below = _
  unfold codeStep
  rw [is]

theorem codeStep_error {e : Error}
    (is : Exec.step ⟨w, a⟩ = (.error e, t)) :
    step w (.code a) below = leave t.world t.act (.error e) below := by
  show codeStep w a below = _
  unfold codeStep
  rw [is]

end Machine

/-! ### Keeping in step -/

/-- The instance has the code, and the machine is where the function is. -/
structure Module.Stands (m : Module) (code : ByteArray) (f : Ssa.Function) (place : Nat → Nat)
    (start : Nat) (w : World)
    (a : Activation) (s : Ssa.State) : Prop where
  has : w.Has a.inst m code
  at' : Lower.At f place start s a
  framed : a.Framed

theorem Activation.Beside.framed {b : Activation} (h : a.Beside b) (framed : a.Framed) :
    b.Framed := by
  unfold Activation.Framed
  rw [h.frames, h.base]
  exact framed

namespace Module.Bears
variable {m : Module} {code : ByteArray} {reach : Nat} {pieces : List Piece}
  {filled : Nat → Option Nat} {func : Nat}
  {f : Ssa.Function} {start : Nat} {place : Nat → Nat} {w w' : World} {a a' : Activation}
  {s s' : Ssa.State} {below : List Task}

variable (h : m.Bears code reach pieces filled func f start place)
include h

/-- After a step its result is in its slot. -/
theorem after (at' : Lower.At f place start s a) {step : Ssa.Step}
    (is : (f.block s.block).steps[s.index]? = some step) (v : Slot) {b : Activation}
    (set : b = { a.set (Lower.result f step.result) v with
      pc := a.pc + (Lower.step f step).size, faultPc := b.faultPc, pending := b.pending }) :
    Lower.At f place start (f.after s step v) b ∧ a.Beside b := by
  have beside := a.set_beside (Lower.result f step.result) v
  have slot : ∀ i, b.slot? i = (a.set (Lower.result f step.result) v).slot? i := by
    intro i
    rw [set]
    rfl
  have base : b.base = a.base := by
    rw [set]
    exact beside.base
  have size : a.slots.size ≤ b.slots.size := by
    rw [set]
    exact beside.size
  refine ⟨⟨at'.block, ?_, ?_, ?_, ?_⟩, ?_⟩
  · show s.index + 1 ≤ _
    exact (Array.getElem?_eq_some_iff.1 is).1
  · have line : (Lower.body f (f.block s.block))[s.index]? = some (Lower.step f step) := by
      simp [Lower.body, is]
    rw [set]
    show a.pc + (Lower.step f step).size = start + place s.block + extent
      ((Lower.body f (f.block s.block)).take (s.index + 1))
    rw [extent_take_succ line, at'.pc, Nat.add_assoc]
  · intro x y held
    rw [slot]
    unfold Ssa.Function.after at held
    cases result : step.result with
    | none =>
      rw [result] at held
      rw [show Lower.result f none = noSlot from rfl, Activation.set, if_pos rfl]
      exact at'.slots x y held
    | some r =>
      rw [result] at held
      have lt := ((h.step_well at'.block is).result r result).1
      show (a.set (f.resolve r) v).slot? x = some y
      by_cases same : x = f.resolve r
      · have held : (if x = f.resolve r then some v else s.vals x) = some y := held
        rw [if_pos same] at held
        cases held
        rw [same]
        exact Activation.slot?_set_self (h.value_ne_noSlot lt)
          (Nat.lt_of_lt_of_le (Nat.add_lt_add_left lt _) at'.frame)
      · have held : (if x = f.resolve r then some v else s.vals x) = some y := held
        rw [if_neg same] at held
        rw [Activation.slot?_set_ne same]
        exact at'.slots x y held
  · rw [base]
    exact Nat.le_trans at'.frame size
  · refine beside.trans ⟨?_, ?_, ?_⟩
    · conv => lhs; rw [set]
      rw [set]
    · exact Nat.le_of_eq (by rw [set])
    · intro k _ x is
      rw [set]
      exact is

variable (st : m.Stands code f place start w a s)
include st

/-- Along an edge the moves are made. -/
theorem step_on (below : List Task) (next : f.next s = .on s') (quiet : Machine.Uninterrupted w a) :
    ∃ e, f.take s.vals e = some s' ∧ e.block < f.blocks.size ∧ Machine.step w (.code a) below =
      .running w (.code { a.move (Lower.moves f e) with pc := start + place e.block }) below := by
  obtain ⟨leave, index, done, is, depart, cross⟩ := next_on next
  obtain ⟨e, edge, take⟩ := bind_eq_some_iff.1 cross
  have lt :=
    ((h.exit_well st.at'.block is).edges e (List.mem_of_getElem? (mem_edges_of_edge? is edge))).1
  obtain ⟨xs, all⟩ : ∃ xs, f.readAll s.vals e.args.toList = some xs := by
    unfold Ssa.Function.take at take
    dsimp only at take
    split at take
    · obtain ⟨xs, all, _⟩ := map_eq_some_iff.1 take
      exact ⟨xs, all⟩
    · cases take
  have run :=
    h.edge (r := ⟨w, a⟩) (Q := fun n t =>
      n = .go (start + place e.block) ∧ t = ⟨w, a.move (Lower.moves f e)⟩)
    (E := fun _ _ => False) st.has.within st.at' done is depart edge all
      (fun stops => absurd stops quiet) ⟨rfl, rfl⟩
  obtain ⟨n, t, stepped, rfl, rfl⟩ := run.exists_ok
  exact ⟨e, take, lt, Machine.codeStep_go stepped⟩

/-- What is computed, or what the surroundings answer, is put into its slot. -/
theorem step_value (below : List Task) {d : Demand}
    (next : f.next s = .meet d place' resume) {v : Slot}
    (answer : d = .value v ∧ w' = w ∨ ∃ act,
      d = .action act ∧ Machine.Uninterrupted w a ∧ w.answer a.inst act = some (.value v w')) :
    ∃ b, Machine.step w (.code a) below = .running w' (.code b) below ∧
      Lower.At f place start (resume v) b ∧ a.Beside b := by
  obtain ⟨step, is, demand, _, rfl⟩ := next_meet next
  have run := h.executes (r := ⟨w, a⟩) (Q := fun n t => n = .go (a.pc + (Lower.step f step).size) ∧
    t = ⟨w', a.set (Lower.result f step.result) v⟩) (E :=
      fun _ _ => False) st.has.within st.at' is demand (by
      rcases answer with ⟨rfl, rfl⟩ | ⟨act, rfl, quiet, answer⟩
      · exact ⟨rfl, rfl⟩
      · exact .action quiet answer ⟨rfl, rfl⟩)
  obtain ⟨n, t, stepped, rfl, rfl⟩ := run.exists_ok
  obtain ⟨there, beside⟩ := h.after st.at' is v (b := { a.set (Lower.result f step.result) v with
    pc := a.pc + (Lower.step f step).size }) rfl
  exact ⟨_, Machine.codeStep_go stepped, there, beside⟩

/-- A call opens a frame with the arguments. -/
theorem step_call (below : List Task) (next : f.next s = .meet (.action act) place' resume)
    (quiet : Machine.Uninterrupted w a)
    (answer : w.answer a.inst act = none) :
    ∃ step w' goal entry owner caller args, (f.block s.block).steps[s.index]? = some step ∧
      resume = f.after s step ∧
      w.Calls pieces a.inst act w' entry owner caller args ∧
        Shows.ComesTo pieces filled goal entry ∧ (goal ≠ entry → owner = a.inst) ∧
      Machine.step w (.code a) below = .running w'
        (.code (a.called args (Lower.result f step.result)
        (a.pc + (Lower.step f step).size) goal owner caller)) below := by
  obtain ⟨step, is, demand, _, rfl⟩ := next_meet next
  have run :=
    h.executes (r := ⟨w, a⟩) (Q := fun n t => ∃ w' goal entry owner caller args, n = .go goal ∧
      t = ⟨w', a.called args (Lower.result f step.result)
        (a.pc + (Lower.step f step).size) a.pc owner caller⟩ ∧
      w.Calls pieces a.inst act w' entry owner caller args ∧
        Shows.ComesTo pieces filled goal entry ∧ (goal ≠ entry → owner = a.inst))
    (E := fun _ _ => False) st.has.within st.at' is demand (.action quiet answer ?_)
  rotate_left
  · intro w'' goal entry owner caller args calls lands direct
    refine ⟨w'', goal, entry, owner, caller, args, rfl, rfl, calls, lands, fun ne => ?_⟩
    obtain ⟨callee, rfl⟩ := direct ne
    cases calls
    rfl
  obtain ⟨n, t, stepped, w', goal, entry, owner, caller, args, rfl, rfl, calls, lands, own⟩ :=
    run.exists_ok
  exact ⟨step, w', goal, entry, owner, caller, args, is, rfl, calls, lands, own,
    Machine.codeStep_go stepped⟩

/-- A step of the function keeps the machine in step with it. -/
theorem stepsWith (well : f.WellFormed) (goes : Machine.StepsWith f below w a s w' a' s') :
    m.Stands code f place start w' a' s' ∧ a.Beside a' := by
  have kept : ∀ {w₁ : World} {b : Activation} {t : Ssa.State}, w.Moves w₁ →
      Lower.At f place start t b → a.Beside b →
      m.Stands code f place start w₁ b t ∧ a.Beside b := by
    intro w₁ b t later there beside
    refine ⟨⟨?_, there, beside.framed st.framed⟩, beside⟩
    rw [beside.inst]
    exact later.has st.has
  cases goes with
  | on next quiet is =>
    obtain ⟨e, take, lt, stepped⟩ := h.step_on st below next quiet
    rw [stepped] at is
    cases is
    exact kept .refl (st.at'.move well (Nat.le_of_lt_succ h.small) lt take) ((a.move_beside _).at _)
  | value next is =>
    obtain ⟨b, stepped, there, beside⟩ := h.step_value st below next (.inl ⟨rfl, rfl⟩)
    rw [stepped] at is
    cases is
    exact kept .refl there beside
  | action next quiet answer is =>
    obtain ⟨b, stepped, there, beside⟩ := h.step_value st below next (.inr ⟨_, rfl, quiet, answer⟩)
    have more := Machine.running_moves is
    rw [stepped] at is
    cases is
    exact kept more there beside
  | call next quiet answer is returns =>
    obtain ⟨step, w₁, goal, entry, owner, caller, args, there, rfl, calls, _, _, stepped⟩ :=
      h.step_call st below next quiet answer
    have more := Machine.running_moves is
    rw [stepped] at is
    cases is
    have home : caller.getD owner = a.inst := by cases calls <;> rfl
    obtain ⟨some', act⟩ := returns.caller ⟨[], _, rfl, a.above_called ..⟩ st.framed home
    obtain ⟨there, beside⟩ := h.after st.at' there _ act
    exact kept (more.trans (Machine.returns_moves returns)) there beside

/-! ### What the machine does next -/

/-- A trap is raised on behalf of the operator that the instruction came from. -/
theorem step_trap (below : List Task) (next : f.next s = .meet (.action act) place' resume)
    (quiet : Machine.Uninterrupted w a) {t : Trap}
    (answer : w.answer a.inst act = some (.trap t)) :
    Machine.Traps below w a { trap := t, func := some func, offset := some place' } := by
  obtain ⟨step, is, demand, rfl, rfl⟩ := next_meet next
  have run := h.executes (r := ⟨w, a⟩) (Q := fun n u => ∃ kind, Shows.stubTrap kind = some t ∧
      (Running.self ⟨w, a⟩).module.trapInfo t a.pc =
        { trap := t, func := some func, offset := some step.srcloc } ∧
      n = .go (m.stubs.get kind) ∧ u = ⟨afterTrap w a.inst act, { a with faultPc := a.pc }⟩)
    (E := fun e u =>
      e = .trap { trap := t, func := some func, offset := some step.srcloc } ∧ u = ⟨w, a⟩)
    st.has.within st.at' is demand
    (.action quiet answer ⟨fun kind raises blame => ⟨kind, raises, blame, rfl, rfl⟩, rfl, rfl⟩)
  unfold Leads at run
  rcases stepped : Exec.step ⟨w, a⟩ with ⟨e | n, u⟩
  · rw [stepped] at run
    obtain ⟨rfl, rfl⟩ := run
    exact .inl (Machine.codeStep_error stepped)
  · rw [stepped] at run
    obtain ⟨kind, raises, blame, rfl, rfl⟩ := run
    have first : Machine.step w (.code a) below = _ := Machine.codeStep_go stepped
    have has : (afterTrap w a.inst act).Has a.inst m code :=
      (Machine.running_moves first).has st.has
    refine .inr ⟨afterTrap w a.inst act, { a with pc := m.stubs.get kind, faultPc := a.pc }, ?_,
      ?_, first, ?_⟩
    · exact ⟨rfl, Nat.le_refl _, fun _ _ _ is => is⟩
    · unfold afterTrap
      split
      · rename_i poll
        refine .inr ⟨?_, rfl⟩
        rw [poll] at answer
        simp only [World.answer] at answer
        split at answer
        · cases answer
          rfl
        · cases answer
      · exact .inl rfl
    · have second :=
        h.shows.step_stub (r := ⟨afterTrap w a.inst act,
          { a with pc := m.stubs.get kind, faultPc := a.pc }⟩)
        (World.Has.within (a := { a with pc := m.stubs.get kind, faultPc := a.pc }) has) raises rfl
      rw [st.has.within.module] at blame
      dsimp only at second
      rw [blame] at second
      exact Machine.codeStep_error second

/-- The machine is at the return instruction of a function that returns. -/
theorem returning (next : f.next s = .ret value) : Machine.Returning w a value := by
  obtain ⟨leave, done, is, ⟨v, same, depart⟩ | ⟨t, same, _⟩⟩ := next_leaves next (.inl ⟨value, rfl⟩)
  · cases same
    obtain ⟨last, p, there, _, inside, pc, ends, _⟩ :=
      h.leads_exit (r := ⟨w, a⟩) (Q := fun _ _ => True) (E := fun _ _ => True)
      st.has.within st.at' done
    have well := h.exit_well st.at'.block is
    have mem := located_of_sited there inside
    rw [is] at ends
    cases ends with
    | @ret v' =>
      have full : Line.Full { instr := .ret (Lower.result f v') } := by
        intro dst x y lanes is
        cases is
      have fetched :=
        instrAt_encode (h.shows.ready mem full) (h.shows.short mem) (h.shows.linked.code.holds mem)
      rw [show code = (w.instances.getD a.inst default).code from
        st.has.within.code.symm] at fetched
      refine ⟨word (Lower.result f v'), _, fetched, ?_⟩
      cases v' with
      | none =>
        cases depart
        rfl
      | some v' =>
        obtain ⟨x, read, is⟩ := map_eq_some_iff.1 depart
        cases is
        have lt := well.operands v' (List.mem_singleton_self _)
        show some x = if word (f.resolve v') = noSlot then none else a.slot? (word (f.resolve v'))
        rw [h.word_value lt, if_neg (h.value_ne_noSlot lt)]
        exact (st.at'.slots _ _ read).symm
    | jump | trap => cases depart
    | branch | table =>
      obtain ⟨_, _, is⟩ := map_eq_some_iff.1 depart
      cases is
  · cases same

/-- The outermost call ends the code with the result. -/
theorem step_last (below : List Task) (next : f.next s = .ret value) (one : a.frames.size = 1) :
    Machine.step w (.code a) below = Machine.leave w { a with frames := #[] }
      (.ok (a.want.map fun ty => (value.getD a.first).toVal ty)) below := by
  obtain ⟨leave, done, is, ⟨v, same, depart⟩ | ⟨t, same, _⟩⟩ := next_leaves next (.inl ⟨value, rfl⟩)
  · cases same
    have popped : a.frames.pop = #[] := by
      rw [← size_eq_zero_iff, size_pop, one]
    have some' : ∃ frame, a.frames.back? = some frame := by
      obtain ⟨frame, is, _⟩ := map_eq_some_iff.1 st.framed
      exact ⟨frame, is⟩
    obtain ⟨frame, back⟩ := some'
    have run :=
      h.ret (r := ⟨w, a⟩) (Q := fun n t => n = .finish value ∧ t = ⟨w, { a with frames := #[] }⟩)
        (E := fun _ _ => False)
      st.has.within st.at' done is depart
    rw [Exec.leads_popFrame] at run
    dsimp only at run
    rw [back, popped] at run
    obtain ⟨n, t, stepped, rfl, rfl⟩ := (run.2 ⟨rfl, rfl⟩).exists_ok
    show Machine.codeStep w a below = _
    unfold Machine.codeStep
    rw [stepped]
  · cases same

/-- The machine does what comes next for the function. -/
theorem shown (below : List Task) : Machine.Shown pieces func below w a (f.next s) := by
  cases next : f.next s with
  | on s' =>
    intro quiet
    obtain ⟨e, _, _, is⟩ := h.step_on st below next quiet
    exact ⟨_, is⟩
  | meet d place' resume =>
    cases d with
    | value v =>
      obtain ⟨b, is, _⟩ := h.step_value st below next (.inl ⟨rfl, rfl⟩)
      exact ⟨b, is⟩
    | trap t =>
      obtain ⟨step, is, demand, rfl, rfl⟩ := next_meet next
      have run := h.executes (r := ⟨w, a⟩) (Q := fun _ _ => False) (E := fun e u =>
        e = .trap { trap := t, func := some func, offset := some step.srcloc } ∧
          u = ⟨w, a⟩) st.has.within st.at' is demand ⟨rfl, rfl⟩
      obtain ⟨e, u, stepped, rfl, rfl⟩ := run.exists_error
      exact .inl (Machine.codeStep_error stepped)
    | action act =>
      intro quiet
      cases answer : w.answer a.inst act with
      | none =>
        obtain ⟨step, w', goal, entry, owner, caller, args, _, _, calls, lands, own, is⟩ :=
          h.step_call st below next quiet answer
        refine ⟨w', entry, owner, caller, args, _, _, goal, calls, is, ?_⟩
        by_cases same : goal = entry
        · exact .inl same
        · obtain rfl | ⟨⟨callee, far⟩, linked⟩ := lands
          · exact .inl rfl
          · have has := (Machine.running_moves is).has st.has
            rw [← own same] at has
            exact .inr
              (Machine.codeStep_go
                (h.shows.step_far (r := ⟨w', a.called args (Lower.result f step.result)
              (a.pc + (Lower.step f step).size) goal owner caller⟩) has.within far linked))
      | some response =>
        cases response with
        | value v w' =>
          obtain ⟨b, is, _⟩ := h.step_value st below next (.inr ⟨_, rfl, quiet, answer⟩)
          exact ⟨b, is⟩
        | trap t => exact h.step_trap st below next quiet answer
        | failure e w' =>
          obtain ⟨step, is, demand, rfl, rfl⟩ := next_meet next
          have run :=
            h.executes (r := ⟨w, a⟩) (Q := fun _ _ => False) (E := fun e' u => e' = e ∧ u = ⟨w', a⟩)
            st.has.within st.at' is demand (.action quiet answer ⟨rfl, rfl⟩)
          obtain ⟨e, u, stepped, rfl, rfl⟩ := run.exists_error
          exact Machine.codeStep_error stepped
  | ret value => exact ⟨h.returning st next, fun one => h.step_last st below next one⟩
  | trap t place' =>
    obtain ⟨leave, done, is, ⟨v, same, _⟩ | ⟨t', same, depart⟩⟩ :=
      next_leaves next (.inr ⟨t, place', rfl⟩)
    · cases same
    · cases same
      have run := h.exit_trap (r := ⟨w, a⟩) (Q := fun _ _ => False) (E := fun e u =>
        e = .trap { trap := t, func := some func, offset := some leave.srcloc } ∧
          u = ⟨w, a⟩) st.has.within st.at' done is depart
      obtain ⟨e, u, stepped, rfl, rfl⟩ := (run.2 ⟨rfl, rfl⟩).exists_error
      exact .inl (Machine.codeStep_error stepped)
  | stuck => trivial

end Module.Bears
end Wasmill
