import Wasmill.Proofs.Action
import Wasmill.Ssa.Function

/-! What a function in static single assignment form does.

Values are held under the value they resolve to. An edge reads all of its arguments before it
assigns the parameters of its target. Reading a value that nothing was assigned to, and reaching the
end of a block that is not finished, is being stuck. -/
namespace Wasmill.Ssa

/-- The slots of the values that were assigned. -/
abbrev Slots := Value → Option Slot

/-- A place in a function: before the instruction of that index, or before the exit of the block. -/
structure State where
  block : Nat
  index : Nat
  vals : Slots

/-- How a block is left. -/
inductive Departure
  /-- By the edge of that number. -/
  | edge (index : Nat)
  | ret (value : Option Slot)
  | trap (t : Trap)

/-- What comes next at a state. -/
inductive NextMove
  | on (s : State)
  /-- An instruction of the operator at `place`; its result, if it comes to one, is handed on. -/
  | meet (d : Demand) (place : Nat) (resume : Slot → State)
  | ret (value : Option Slot)
  | trap (t : Trap) (place : Nat)
  | stuck

namespace Function

def read (f : Function) (vals : Slots) (v : Value) : Option Slot := vals (f.resolve v)

def readAll (f : Function) (vals : Slots) (vs : List Value) : Option (List Slot) :=
  vs.mapM (f.read vals)

def assign (f : Function) (vals : Slots) (v : Value) (x : Slot) : Slots :=
  fun w => if w = f.resolve v then some x else vals w

def assignAll (f : Function) (vals : Slots) : List Value → List Slot → Slots
  | v :: vs, x :: xs => f.assign (f.assignAll vals vs xs) v x
  | _, _ => vals

section
variable {f : Function} {vals : Slots} {v : Value} {vs : List Value} {xs : List Slot}

theorem readAll_cons :
    f.readAll vals (v :: vs) = (f.read vals v).bind fun x => (f.readAll vals vs).map (x :: ·) := by
  simp only [readAll, List.mapM_cons]
  cases f.read vals v with
  | none => rfl
  | some x => cases vs.mapM (f.read vals) <;> rfl

theorem readAll_cons_eq_some : f.readAll vals (v :: vs) = some xs ↔
      ∃ x rest, f.read vals v = some x ∧ f.readAll vals vs = some rest ∧ xs = x :: rest := by
  rw [readAll_cons]
  cases f.read vals v with
  | none => simp
  | some x =>
    cases f.readAll vals vs with
    | none => simp
    | some rest => simp [eq_comm]

end

/-- Along an edge: the parameters of its target get the arguments, all at once. -/
def take (f : Function) (vals : Slots) (e : Edge) : Option State :=
  let params := (f.block e.block).params
  if e.args.size = params.size then
    (f.readAll vals e.args.toList).map fun xs =>
      { block := e.block, index := 0, vals := f.assignAll vals params.toList xs }
  else none

end Function

/-- What an instruction comes to. -/
def Inst.demand (f : Function) (vals : Slots) : Inst → Option Demand
  | .const bits => return .value bits
  | .unary op a => do return .value (op.eval (← f.read vals a))
  | .binary op a b => do return .ofEval (op.eval (← f.read vals a) (← f.read vals b))
  | .convert op a => do return .ofEval (op.eval (← f.read vals a))
  | .select cond ifTrue ifFalse => do
    let c ← f.read vals cond
    let t ← f.read vals ifTrue
    let e ← f.read vals ifFalse
    return .value (if c.low32 ≠ 0 then t else e)
  | .load kind addr offset => do
    return .action (.load kind ((← f.read vals addr).low32.toNat + offset))
  | .store kind addr value offset => do
    let a ← f.read vals addr
    return .action (.store kind (a.low32.toNat + offset) (← f.read vals value))
  | .globalGet ty place => return .action (.globalGet ty place)
  | .globalSet ty place value => do
    return .action (.globalSet ty place (← f.read vals value))
  | .memorySize => return .action .memorySize
  | .memoryGrow delta => do return .action (.memoryGrow (← f.read vals delta))
  | .splat shape a => do return .value (shape.splat (← f.read vals a))
  | .extractLane shape signed lane vector => do
    return .value (shape.extract signed lane (← f.read vals vector))
  | .replaceLane shape lane vector value => do
    let v ← f.read vals vector
    return .value (shape.replace lane v (← f.read vals value))
  | .shuffle a b lanes => do
    let x ← f.read vals a
    return .value (Ssa.shuffle x (← f.read vals b) lanes)
  | .call callee args => do return .action (.call callee (← f.readAll vals args))
  | .callImport importIndex record args => do
    return .action (.callImport importIndex record (← f.readAll vals args))
  | .callIndirect sig table token index args => do
    let i ← f.read vals index
    return .action (.callIndirect sig table token i (← f.readAll vals args))
  | .interruptCheck => return .action .poll

def Exit.depart (f : Function) (vals : Slots) : Exit → Option Departure
  | .jump _ => some (.edge 0)
  | .branch cond _ _ => (f.read vals cond).map fun c => .edge (if c.low32 ≠ 0 then 0 else 1)
  | .table index targets _ =>
    (f.read vals index).map fun i => .edge (min i.low32.toNat targets.size)
  | .ret none => some (.ret none)
  | .ret (some v) => (f.read vals v).map fun x => .ret (some x)
  | .trap t => some (.trap t)

namespace Function

/-- The state behind an edge. -/
def cross (f : Function) (s : State) (index : Nat) : Option State :=
  (f.edge? ⟨s.block, index⟩).bind (f.take s.vals)

def leaving (f : Function) (s : State) (leave : Leave) : NextMove :=
  match leave.exit.depart f s.vals with
  | some (.edge index) =>
    match f.cross s index with
    | some next => .on next
    | none => .stuck
  | some (.ret v) => .ret v
  | some (.trap t) => .trap t leave.srcloc
  | none => .stuck

/-- The state after a step whose result, if it has one, is `v`. -/
def after (f : Function) (s : State) (step : Step) (v : Slot) : State :=
  { s with
    index := s.index + 1
    vals :=
      match step.result with
      | some r => f.assign s.vals r v
      | none => s.vals }

def next (f : Function) (s : State) : NextMove :=
  match (f.block s.block).steps[s.index]? with
  | some step =>
    match step.inst.demand f s.vals with
    | some d => .meet d step.srcloc (f.after s step)
    | none => .stuck
  | none =>
    match (f.block s.block).leave with
    | some leave => f.leaving s leave
    | none => .stuck

/-- Parameters of the function are its first values. -/
def start (args : List Slot) : State := { block := 0, index := 0, vals := fun v => args[v]? }

end Function

/-- How far a run got. -/
inductive Progress (σ ε : Type)
  | running (s : State) (h : History σ)
  | ended (o : Ending ε) (h : History σ)
  | stuck

namespace Progress
variable {σ ε : Type}

def step (f : Function) (O : Outside σ ε) : Progress σ ε → Progress σ ε
  | .running s h =>
    match f.next s with
    | .on s => .running s h
    | .meet d place resume =>
      match O.meet h d with
      | .value v h => .running (resume v) h
      | .trap t => .ended (.trapped t place) h
      | .failure e h => .ended (.failed e) h
    | .ret v => .ended (.returned v) h
    | .trap t place => .ended (.trapped t place) h
    | .stuck => .stuck
  | p => p

def run (f : Function) (O : Outside σ ε) : (steps : Nat) → Progress σ ε → Progress σ ε
  | 0, p => p
  | n + 1, p => run f O n (step f O p)

/-- The actions performed so far. -/
def actions : Progress σ ε → List Action
  | .running _ h => h.actions
  | .ended _ h => h.actions
  | .stuck => []

variable {f : Function} {O : Outside σ ε}

@[simp] theorem run_zero (p : Progress σ ε) : run f O 0 p = p := rfl

@[simp] theorem run_succ (n : Nat) (p : Progress σ ε) :
    run f O (n + 1) p = run f O n (step f O p) := rfl

theorem run_add (m n : Nat) (p : Progress σ ε) : run f O (m + n) p = run f O n (run f O m p) := by
  induction m generalizing p with
  | zero => simp
  | succ m ih => rw [Nat.succ_add, run_succ, run_succ, ih]

@[simp] theorem run_ended (n : Nat) (o : Ending ε) (h : History σ) :
    run f O n (.ended o h) = .ended o h := by
  induction n with
  | zero => rfl
  | succ n ih => exact ih

@[simp] theorem run_stuck (n : Nat) : run f O n .stuck = .stuck := by
  induction n with
  | zero => rfl
  | succ n ih => exact ih

/-- A step that does not get stuck forgets no action. -/
theorem step_actions {p : Progress σ ε} (goes : step f O p ≠ .stuck) :
    p.actions <:+ (step f O p).actions := by
  cases p with
  | running s h =>
    cases next : f.next s with
    | on _ | ret _ | trap _ _ => simp only [step, next]; exact List.suffix_refl _
    | meet d place resume =>
      have kept := O.meet_actions h d
      cases answer : O.meet h d with
      | value _ _ | failure _ _ =>
        simp only [answer] at kept; simp only [step, next, answer]; exact kept
      | trap t => simp only [step, next, answer]; exact List.suffix_refl _
    | stuck => exact absurd (by simp only [step, next]) goes
  | ended o h => exact List.suffix_refl _
  | stuck => exact List.suffix_refl _

/-- More steps perform more actions. -/
theorem run_actions {p : Progress σ ε} (n : Nat) (goes : run f O n p ≠ .stuck) :
    p.actions <:+ (run f O n p).actions := by
  induction n generalizing p with
  | zero => exact List.suffix_refl _
  | succ n ih =>
    have first : step f O p ≠ .stuck := fun stuck => goes (by rw [run_succ, stuck, run_stuck])
    exact (step_actions first).trans (ih goes)

end Progress

namespace Function
variable {σ ε : Type}

/-- A call of the function has the outcome `o`, after which the surroundings are `h`. -/
def Ends (f : Function) (O : Outside σ ε) (args : List Slot) (st : σ) (o : Ending ε)
    (h : History σ) : Prop :=
  ∃ n, Progress.run f O n (.running (start args) ⟨st, []⟩) = .ended o h

/-- A call of the function performs these actions, latest first, and maybe more after them. -/
def Performs (f : Function) (O : Outside σ ε) (args : List Slot) (st : σ)
    (actions : List Action) : Prop :=
  ∃ n, actions <:+ (Progress.run f O n (.running (start args) ⟨st, []⟩)).actions

/-! ### What comes next -/

variable {f : Function} {s s' : State}

theorem next_on (is : f.next s = .on s') : ∃ leave index, (f.block s.block).steps[s.index]? = none ∧
    (f.block s.block).leave = some leave ∧ leave.exit.depart f s.vals = some (.edge index) ∧
      f.cross s index = some s' := by
  unfold next at is
  split at is
  · split at is <;> cases is
  · rename_i done
    split at is
    · rename_i leave left
      unfold leaving at is
      split at is
      · rename_i index depart
        split at is
        · rename_i t cross
          cases is
          exact ⟨leave, index, done, left, depart, cross⟩
        · cases is
      all_goals cases is
    · cases is

theorem next_meet {d : Demand} {place : Nat} {resume : Slot → State}
    (is : f.next s = .meet d place resume) :
    ∃ step, (f.block s.block).steps[s.index]? = some step ∧ step.inst.demand f s.vals = some d ∧
      place = step.srcloc ∧
      resume = f.after s step := by
  unfold next at is
  split at is
  · rename_i step there
    split at is
    · rename_i d' demand
      cases is
      exact ⟨step, there, demand, rfl, rfl⟩
    · cases is
  · split at is
    · unfold leaving at is
      split at is
      · split at is <;> cases is
      all_goals cases is
    · cases is

theorem next_leaves {move : NextMove} (is : f.next s = move)
    (ends : (∃ v, move = .ret v) ∨ ∃ t place, move = .trap t place) :
    ∃ leave, (f.block s.block).steps[s.index]? = none ∧ (f.block s.block).leave = some leave ∧
      ((∃ v, move = .ret v ∧ leave.exit.depart f s.vals = some (.ret v)) ∨
        ∃ t, move = .trap t leave.srcloc ∧ leave.exit.depart f s.vals = some (.trap t)) := by
  unfold next at is
  split at is
  · split at is <;> subst is <;> simp at ends
  · rename_i done
    split at is
    · rename_i leave left
      unfold leaving at is
      refine ⟨leave, done, left, ?_⟩
      split at is
      · split at is <;> subst is <;> simp at ends
      · rename_i v depart
        exact .inl ⟨v, is.symm, depart⟩
      · rename_i t depart
        exact .inr ⟨t, is.symm, depart⟩
      · subst is
        simp at ends
    · subst is
      simp at ends

end Function
end Wasmill.Ssa
