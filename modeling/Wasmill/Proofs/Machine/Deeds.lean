import Wasmill.Proofs.Machine.Frames

/-! What one instruction can do, whatever code it stands in.

Most instructions change slots of the innermost frame only. The others do one more thing: they open
or close a frame, perhaps of another instance, which is then held for as long, they use up a request
to stop, count an entry, or write a memory or a global. A trap is blamed on the instruction, at once
or by way of a stub. -/
namespace Wasmill
open Code Steps
variable {r : Running}

/-- The instance is made of the same parts. -/
def Instance.SameParts (i j : Instance) : Prop :=
  j = { i with data := j.data, interrupted := j.interrupted, profiling := j.profiling, profile :=
    j.profile, handles := j.handles }

/-- The trap that an error reports. -/
def Error.trap? : Error → Option TrapInfo
  | .trap info => some info
  | _ => none

/-- Whether a host function is called next. -/
def Next.exits : Next → Bool
  | .exit _ _ _ _ => true
  | .go _ | .finish _ => false

/-- Whether an instruction can end in a trap at once. -/
def Code.Instr.traps : Instr → Bool
  | .binary op _ _ _ => op.canTrap
  | .convert op _ _ => op.canTrap
  | .trap _ | .callIndirect _ _ _ _ _ => true
  | _ => false

/-- The trap stub that an instruction can go to. -/
def Code.Instr.trapStub? : Instr → Option Nat
  | .prologue _ stub | .checkInterrupt _ stub | .load _ _ _ _ stub
  | .store _ _ _ _ stub => some stub
  | _ => none

/-- Whether an instruction can be blamed for calls that are nested too deep. -/
def Code.Instr.overflows : Instr → Bool
  | .prologue _ _ | .trap .stackOverflow => true
  | _ => false

/-- The arguments of an instruction that calls, and the slot for the result. -/
def Code.Instr.call? : Instr → Option (List Nat × Nat)
  | .call _ args dst | .callImport _ args dst | .callIndirect _ _ _ args dst => some (args, dst)
  | _ => none

def Code.Instr.returns : Instr → Bool
  | .ret _ => true
  | _ => false

/-- Whether an instruction reports what another one ran into. -/
def Code.Instr.relays : Instr → Bool
  | .trapExit _ | .unwind => true
  | _ => false

namespace Exec
variable {stub : Nat}

/-- Only the innermost frame may have changed. -/
structure Quiet (r t : Running) : Prop where
  world : t.world = r.world
  act : r.act.Beside t.act

theorem Quiet.refl (r : Running) : Quiet r r := ⟨rfl, .refl _⟩

theorem Quiet.trans {s t : Running} (first : Quiet r s) (second : Quiet s t) : Quiet r t :=
  ⟨second.world.trans first.world, first.act.trans second.act⟩

/-- Moreover no instruction is blamed for anything. -/
structure Calm (r t : Running) : Prop extends Quiet r t where
  faultPc : t.act.faultPc = r.act.faultPc

theorem Calm.refl (r : Running) : Calm r r := ⟨.refl r, rfl⟩

theorem Calm.trans {s t : Running} (first : Calm r s) (second : Calm s t) : Calm r t :=
  ⟨first.toQuiet.trans second.toQuiet, second.faultPc.trans first.faultPc⟩

theorem Calm.self {t : Running} (h : Calm r t) : t.self = r.self := by
  unfold Running.self
  rw [h.world, h.act.inst]

instance : Lasting Calm := ⟨.refl, .trans⟩

/-- However the computation ends, only that becomes of the running code, and it does not end in a
trap. -/
abbrev Mild {α : Type} (R : Running → Running → Prop) (x : Exec α) : Prop :=
  Respects R (·.trap? = none) x

section
variable {α : Type} {R : Running → Running → Prop} [Lasting R]

instance (cause : Broken) : Mild R (broken cause : Exec α) :=
  ⟨fun r => leads_broken.2 ⟨Lasting.refl r, rfl⟩⟩

instance (f : Running → α) : Mild R (ask f) := ⟨fun r => leads_ask.2 (Lasting.refl r)⟩

instance (f : Running → Bool) : Mild R (test f) := inferInstanceAs (Mild R (ask f))

instance (f : Instance → α) : Mild R (self f) := inferInstanceAs (Mild R (ask _))

instance (x : Except Broken α) : Mild R (lift x) := by
  cases x with
  | ok a => exact inferInstanceAs (Mild R (pure a))
  | error cause => exact inferInstanceAs (Mild R (broken cause))

instance (i : Nat) : Mild R (slot i) := by
  refine Respects.seq fun v => ?_
  cases v <;> infer_instance

instance (i : Nat) (v : Slot) : Mild Calm (setSlot i v) := by
  refine ⟨fun r => ?_⟩
  rw [leads_setSlot]
  split
  · refine ⟨⟨rfl, r.act.set_beside i v⟩, ?_⟩
    unfold Running.withAct Activation.set
    split <;> rfl
  · exact ⟨.refl r, rfl⟩

instance (pc : Nat) (rel : Int) : Mild R (relative pc rel) := by unfold relative; infer_instance

instance (moves : List (Nat × Nat)) : Mild Calm (applyMoves moves) := by
  unfold applyMoves; infer_instance

instance (src : Nat) : Mild R (result src) := by unfold result; infer_instance

instance (addr offset : Nat) : Mild R (address addr offset) := by unfold address; infer_instance

instance (cause : Broken) : Mild R (memory cause) := by
  refine Respects.seq fun id => ?_
  cases id <;> infer_instance

instance (target : Nat) : Mild R (countingEntry target) := by
  have rest : ∀ target : Nat, Mild R (do
      match ← self (·.module.rangeAt? target) with
      | some { kind := .function _ _ entry, start, .. } =>
        return if entry = target then start else target
      | _ => return target : Exec Nat) := by
    intro target
    refine Respects.seq fun range => ?_
    split <;> infer_instance
  refine Respects.seq fun code => Respects.seq fun fetched => ?_
  split
  split <;> infer_instance

end

/-! ### Beyond the frame -/

/-- The running code after the innermost frame is closed, where the one below it begins at `base`.
-/
def closed (r : Running) (frame : Frame) (base : Nat) : Running :=
  let a := { r.act with frames := r.act.frames.pop, slots := r.act.slots.shrink frame.base, base }
  match frame.caller with
  | none => { r with act := a }
  | some caller => { world := r.world.dropInstance r.act.inst, act := { a with inst := caller } }

/-- The one thing that an instruction can do beyond its frame. -/
inductive Act (i : Instr) (r : Running) : Running → Prop
  | aside {w : World} (engines : w.engines = r.world.engines)
      (instances : w.instances = r.world.instances) :
    Act i r { r with world := w }
  | self {f : Instance → Instance} (same : ∀ i : Instance, i.SameParts (f i)) :
      Act i r { r with world := r.world.onInstance r.act.inst f }
  | call (calls : i.call?.isSome) (args : List Slot) (dst returnPc : Nat) :
    Act i r (r.withAct (r.act.called args dst returnPc r.act.pc r.act.inst none))
  /-- A call of a function of another instance. -/
  | away (calls : i.call?.isSome) (args : List Slot) (dst returnPc : Nat) {owner : Nat}
      (other : r.act.inst ≠ owner)
    (alive : r.world.isAlive owner) :
    Act i r ⟨r.world.holdInstance owner,
      r.act.called args dst returnPc r.act.pc owner (some r.act.inst)⟩
  | back (returns : i.returns = true) {frame below : Frame} (is : r.act.frames.back? = some frame)
    (under : r.act.frames.pop.back? = some below) : Act i r (closed r frame below.base)

/-- What an instruction can do. -/
def Deed (i : Instr) (r t : Running) : Prop := ∃ s u, Quiet r s ∧ Act i s u ∧ Quiet u t

variable {i : Instr} {α β : Type} {pc : Nat} {r s t : Running}

theorem Act.deed (act : Act i r t) : Deed i r t := ⟨r, t, .refl r, act, .refl t⟩

theorem deed_aside {w : World} (engines : w.engines = r.world.engines)
    (instances : w.instances = r.world.instances) :
    Deed i r { r with world := w } := (Act.aside engines instances).deed

theorem deed_self {f : Instance → Instance} (same : ∀ i : Instance, i.SameParts (f i)) :
    Deed i r { r with world := r.world.onInstance r.act.inst f } := (Act.self same).deed

theorem Quiet.deed (quiet : Quiet r t) : Deed i r t := ⟨t, t, quiet, .aside rfl rfl, .refl t⟩

theorem Deed.after (quiet : Quiet r s) (deed : Deed i s t) : Deed i r t := by
  obtain ⟨u, v, first, act, last⟩ := deed
  exact ⟨u, v, quiet.trans first, act, last⟩

theorem Deed.before (deed : Deed i r s) (quiet : Quiet s t) : Deed i r t := by
  obtain ⟨u, v, first, act, last⟩ := deed
  exact ⟨u, v, first, act, last.trans quiet⟩

/-- However it ends, the computation does one such thing at most. Nothing is blamed, and it does not
end in a trap. -/
def Does (i : Instr) (x : Exec α) : Prop :=
  ∀ r, Leads x r (fun _ t => Deed i r t ∧ t.act.faultPc = r.act.faultPc)
    (fun e t => Deed i r t ∧ e.trap? = none)

theorem Does.then {x : Exec α} {f : α → Exec β} (first : Does i x) (rest : ∀ a, Mild Calm (f a)) :
    Does i (x >>= f) := by
  intro r
  rw [leads_bind]
  refine (first r).imp (fun a s done => ?_) fun _ _ failed => failed
  exact ((rest a).leads s).imp (fun _ _ calm => ⟨done.1.before calm.toQuiet,
    calm.faultPc.trans done.2⟩)
    fun _ _ failed => ⟨done.1.before failed.1.toQuiet, failed.2⟩

/-! ### How instructions end -/

/-- An instruction is blamed, and goes to a trap stub: its own, or that for requests to stop where
they are noticed without being asked for. -/
structure Faults (i : Instr) (pc : Nat) (r : Running) (next : Next) (t : Running) : Prop where
  pc : t.act.faultPc = pc
  module : t.self.module = r.self.module
  code : t.self.code = r.self.code
  stub : (∃ stub, i.trapStub? = some stub ∧ next = .go stub) ∨
    r.act.signals = true ∧ next = .go r.self.module.stubs.interrupt

/-- How an instruction ends that does not fail. The return from the outermost call ends the code. -/
structure Succeeds (i : Instr) (pc : Nat) (r : Running) (next : Next) (t : Running) : Prop where
  deed : Deed i r t ∨ t.world = r.world ∧ ∃ value, next = .finish value
  exits : next.exits = true → Quiet r t
  blames : t.act.faultPc = r.act.faultPc ∨ Faults i pc r next t

/-- How an instruction fails. -/
structure Fails (i : Instr) (pc : Nat) (r : Running) (e : Error) (t : Running) : Prop where
  deed : Deed i r t
  blames : ∀ info, e.trap? = some info →
    i.relays = true ∨ i.traps = true ∧ ∃ trap, (trap = .stackOverflow → i.overflows = true) ∧
      info = r.self.module.trapInfo trap pc

def Behaves (i : Instr) (pc : Nat) (x : Exec Next) : Prop :=
  ∀ r, Leads x r (Succeeds i pc r) (Fails i pc r)

theorem Deed.fails {e : Error} (deed : Deed i r t) (none' : e.trap? = none) : Fails i pc r e t := by
  refine ⟨deed, fun info is => ?_⟩
  rw [none'] at is
  cases is

theorem Succeeds.after {next : Next} (calm : Calm r s) (goes : Succeeds i pc s next t) :
    Succeeds i pc r next t := by
  refine ⟨goes.deed.imp (.after calm.toQuiet) (And.imp_left (·.trans calm.world)),
    fun exits => calm.toQuiet.trans (goes.exits exits), ?_⟩
  rcases goes.blames with same | faults
  · exact .inl (same.trans calm.faultPc)
  · have signals : s.act.signals = r.act.signals := by rw [calm.act.act]
    have stub := faults.stub
    rw [signals, calm.self] at stub
    exact .inr ⟨faults.pc, by rw [faults.module, calm.self], by rw [faults.code, calm.self], stub⟩

theorem Fails.after {e : Error} (calm : Calm r s) (fails : Fails i pc s e t) : Fails i pc r e t :=
  ⟨fails.deed.after calm.toQuiet, calm.self ▸ fails.blames⟩

theorem behaves_bind {x : Exec α} {f : α → Exec Next} [first : Mild Calm x]
    (rest : ∀ a, Behaves i pc (f a)) : Behaves i pc (x >>= f) := by
  intro r
  rw [leads_bind]
  refine (first.leads r).imp (fun a s calm => ?_) fun _ _ failed =>
    failed.1.toQuiet.deed.fails failed.2
  exact (rest a s).imp (fun _ _ goes => goes.after calm) fun _ _ fails => fails.after calm

theorem Does.go {x : Exec α} (first : Does i x) (target : Nat) :
    Behaves i pc (x >>= fun _ => pure (.go target)) := by
  intro r
  rw [leads_bind]
  refine (first r).imp (fun a s done => ?_) fun _ _ failed => failed.1.fails failed.2
  exact leads_pure.2 ⟨.inl done.1, nofun, .inl done.2⟩

theorem behaves_pure (next : Next) : Behaves i pc (pure next) :=
  fun r => leads_pure.2 ⟨.inl (Quiet.refl r).deed, fun _ => .refl r, .inl rfl⟩

theorem behaves_broken (cause : Broken) : Behaves i pc (broken cause) :=
  fun r => leads_broken.2 ((Quiet.refl r).deed.fails rfl)

theorem behaves_ite {c : Prop} [Decidable c] {x y : Exec Next} (yes : Behaves i pc x)
    (no : Behaves i pc y) :
    Behaves i pc (if c then x else y) := by
  split
  · exact yes
  · exact no

theorem behaves_trap (can : i.traps = true) {t : Trap}
    (own : t = .stackOverflow → i.overflows = true) : Behaves i pc (trap t pc) := by
  refine fun r => leads_trap.2 ⟨(Quiet.refl r).deed, ?_⟩
  rintro _ ⟨⟩
  exact .inr ⟨can, t, own, rfl⟩

theorem behaves_fault (is : i.trapStub? = some stub) : Behaves i pc (fault pc stub) :=
  fun _ => leads_fault.2 ⟨.inl (Quiet.deed ⟨rfl, rfl, Nat.le_refl _, fun _ _ _ is => is⟩), nofun,
    .inr ⟨rfl, rfl, rfl, .inl ⟨stub, is, rfl⟩⟩⟩

theorem stopped_deed (r : Running) (pc : Nat) : Deed i r (stopped r pc) :=
  (deed_self (f := fun i => { i with interrupted := false }) fun _ => rfl).before ⟨rfl,
    rfl, Nat.le_refl _, fun _ _ _ is => is⟩

theorem behaves_unlessStopped {next : Exec Next} (rest : Behaves i pc next) :
    Behaves i pc (unlessStopped pc next) := by
  intro r
  rw [leads_unlessStopped]
  split
  · next stops =>
    exact ⟨.inl (stopped_deed r pc), nofun,
      .inr ⟨rfl, stopped_self r pc rfl, stopped_self r pc rfl, .inr ⟨stops.1, rfl⟩⟩⟩
  · exact rest r

theorem behaves_branch (d : Dest) : Behaves i pc (branch pc d) := by
  refine behaves_bind fun target => ?_
  have take : Behaves i pc (do
      applyMoves d.moves
      return .go target) := behaves_bind fun _ => behaves_pure _
  exact behaves_ite (behaves_unlessStopped take) take

/-- Arguments are added to the slots and nothing else changes. -/
theorem pushArgs_act (args : List Nat) (a : Activation) :
    (pushArgs args a).2 = { a with slots := (pushArgs args a).2.slots } := by
  induction args generalizing a with
  | nil => rfl
  | cons arg args ih =>
    unfold pushArgs
    split
    · exact ih _
    · rfl

theorem leads_pushFrame {args : List Nat} {dst returnPc : Nat} {callee : Option Nat}
    {Q : Unit → Running → Prop}
    {E : Error → Running → Prop} : Leads (pushFrame args dst returnPc callee) r Q E ↔
      let a := (pushArgs args r.act).2
      match (pushArgs args r.act).1 with
      | some missing => E (.internal (.slotRead missing)) (r.withAct a)
      | none => Q () (r.withAct { a with
          frames := a.frames.push
            { base := r.act.slots.size, returnPc, dst, caller := callee.map fun _ => r.act.inst }
          base := r.act.slots.size, inst := callee.getD r.act.inst }) := by
  unfold pushFrame
  simp only [leads_bind, leads_ask, leads_takeFrom]
  have inst : (pushArgs args r.act).2.inst = r.act.inst := by rw [pushArgs_act]
  cases (pushArgs args r.act).1 with
  | some missing => simp only [leads_bind, leads_broken]
  | none => simp only [leads_bind, leads_ask, leads_onAct, inst]

theorem leads_popFrame {value : Option Slot} {Q : Next → Running → Prop}
    {E : Error → Running → Prop} :
    Leads (popFrame value) r Q E ↔
      match r.act.frames.back? with
      | none =>
        E (.internal .returnWithoutFrame) (r.withAct { r.act with frames := r.act.frames.pop })
      | some frame =>
        match r.act.frames.pop.back? with
        | none => Q (.finish value) (r.withAct { r.act with frames := r.act.frames.pop })
        | some below =>
          if frame.dst = noSlot then Q (.go frame.returnPc) (closed r frame below.base)
          else match value with
            | some v =>
              Leads (setSlot frame.dst v) (closed r frame below.base)
                (fun _ => Q (.go frame.returnPc)) E
            | none => E (.internal .missingReturnValue) (closed r frame below.base) := by
  unfold popFrame
  rw [leads_bind, leads_takeFrom]
  cases r.act.frames.back? with
  | none => exact leads_broken
  | some frame =>
    dsimp only
    rw [leads_bind, leads_ask]
    cases is : r.act.frames.pop.back? with
    | none => simp only [Running.withAct, Option.map_none, leads_pure]
    | some below =>
      have back : ∀ {Q : Unit → Running → Prop},
          Leads (returnTo frame.caller) (r.withAct { r.act with
            frames := r.act.frames.pop, slots := r.act.slots.shrink frame.base, base :=
              below.base }) Q E ↔
          Q () (closed r frame below.base) := by
        intro Q
        unfold returnTo closed
        cases frame.caller with
        | none => simp only [leads_pure]
        | some caller => simp only [leads_bind, leads_ask, leads_onAct, leads_onWorld]
      simp only [Running.withAct, Option.map_some, leads_bind, leads_onAct, back]
      by_cases none' : frame.dst = noSlot
      · simp only [none', ne_eq, not_true_eq_false, if_false, if_true, leads_pure]
      · simp only [none', ne_eq, not_false_eq_true, if_true, if_false]
        cases value with
        | none => simp only [leads_bind, leads_broken]
        | some v => simp only [leads_bind, leads_pure]

theorem behaves_popFrame (returns : i.returns = true) (value : Option Slot) :
    Behaves i pc (popFrame value) := by
  intro r
  rw [leads_popFrame]
  cases is : r.act.frames.back? with
  | none =>
    have empty : r.act.frames = #[] := by simpa using is
    have same : { r.act with frames := r.act.frames.pop } = r.act := by
      rw [empty, Array.pop_empty, ← empty]
    dsimp only
    rw [same]
    exact (Quiet.refl r).deed.fails rfl
  | some frame =>
    dsimp only
    cases under : r.act.frames.pop.back? with
    | none => exact ⟨.inr ⟨rfl, value, rfl⟩, nofun, .inl rfl⟩
    | some below =>
      have back : Deed i r (closed r frame below.base) := (Act.back returns is under).deed
      have same : (closed r frame below.base).act.faultPc = r.act.faultPc := by
        unfold closed
        cases frame.caller <;> rfl
      dsimp only
      split
      · exact ⟨.inl back, nofun, .inl same⟩
      · split
        · exact (Respects.leads (R := Calm) _).imp
            (fun _ _ calm => ⟨.inl (back.before calm.toQuiet), nofun, .inl (calm.faultPc.trans same)⟩)
            fun _ _ failed => (back.before failed.1.toQuiet).fails failed.2
        · exact back.fails rfl

/-- Arguments are pushed as far as they are there. -/
theorem pushArgs_eq (args : List Nat) (a : Activation) :
    ∃ pushed : List Slot, (pushArgs args a).2 = { a with slots := a.slots ++ pushed.toArray } := by
  induction args generalizing a with
  | nil => exact ⟨[], by simp [pushArgs]⟩
  | cons arg args ih =>
    unfold pushArgs
    split
    · rename_i v _
      obtain ⟨pushed, is⟩ := ih { a with slots := a.slots.push v }
      exact ⟨v :: pushed, by rw [is]; simp⟩
    · exact ⟨[], by simp⟩

theorem does_pushFrame (calls : i.call?.isSome) (args : List Nat) (dst returnPc : Nat) :
    Does i (pushFrame args dst returnPc none) := by
  intro r
  rw [leads_pushFrame]
  dsimp only
  obtain ⟨pushed, is⟩ := pushArgs_eq args r.act
  rw [is]
  split
  · exact ⟨Quiet.deed ⟨rfl, r.act.append_beside _⟩, rfl⟩
  · exact ⟨(Act.call calls pushed dst returnPc).deed, rfl⟩

theorem behaves_call (calls : i.call?.isSome) (rel : Int) (args : List Nat) (dst next : Nat) :
    Behaves i pc (call pc rel args dst next) := by
  refine behaves_unlessStopped (behaves_bind fun target => behaves_bind fun profiling => ?_)
  have rest : ∀ target : Nat, Behaves i pc (do
      pushFrame args dst next none
      return .go target) := fun target => (does_pushFrame calls args dst next).go target
  split
  · exact behaves_bind rest
  · exact behaves_bind rest

theorem behaves_callIndirect (calls : i.call?.isSome) (can : i.traps = true)
    (table token index : Nat) (args : List Nat) (dst next : Nat) :
    Behaves i pc (callIndirect pc table token index args dst next) := by
  refine behaves_unlessStopped (behaves_bind fun v => behaves_bind fun id =>
    behaves_bind fun id => ?_)
  refine fun r => leads_bind.2 (leads_ask.2 ?_)
  cases is : (r.world.tables.getD id default).target v.low32.toNat with
  | error t =>
    refine behaves_trap can ?_ r
    rintro rfl
    unfold Table.target at is
    split at is <;> cases is
  | ok elem =>
    refine (behaves_bind fun expected => behaves_bind fun expected => ?_ : Behaves i pc _) r
    refine behaves_ite (behaves_trap can (by rintro ⟨⟩)) fun r => ?_
    rw [leads_bind, leads_test]
    by_cases other : r.act.inst = elem.owner
    · rw [if_pos (decide_eq_true other)]
      exact (does_pushFrame calls args dst next).go elem.entry r
    rw [if_neg (by rw [decide_eq_true_iff]; exact other), leads_bind, leads_test]
    by_cases alive : r.world.isAlive elem.owner = true
    · rw [if_pos alive, leads_bind, leads_pushFrame]
      obtain ⟨pushed, is⟩ := pushArgs_eq args r.act
      dsimp only
      rw [is]
      split
      · exact Deed.fails (Quiet.deed ⟨rfl, r.act.append_beside _⟩) rfl
      · simp only [leads_bind, leads_onWorld, leads_pure]
        exact ⟨.inl (Act.away calls pushed dst next other alive).deed, by rintro ⟨⟩, .inl rfl⟩
    · rw [if_neg alive]
      exact behaves_trap (t := .indirectCallToNull) can (by rintro ⟨⟩) r

theorem behaves_load (kind : Ssa.LoadKind) (dst addr offset : Nat) (next : Nat)
    (is : i.trapStub? = some stub) :
    Behaves i pc (load kind pc dst addr offset stub next) := by
  refine behaves_bind fun place => behaves_bind fun id => behaves_bind fun n => ?_
  cases n with
  | none => exact behaves_fault is
  | some n => exact behaves_bind fun _ => behaves_pure _

theorem behaves_store (kind : Ssa.StoreKind) (addr src offset : Nat) (next : Nat)
    (is : i.trapStub? = some stub) :
    Behaves i pc (store kind pc addr src offset stub next) := by
  refine behaves_bind fun place => behaves_bind fun id => behaves_bind fun v =>
    behaves_bind fun inside => behaves_ite ?_ (behaves_fault is)
  intro r
  rw [leads_bind, leads_onWorld, leads_pure]
  exact ⟨.inl (deed_aside rfl rfl), nofun, .inl rfl⟩

theorem does_growMemory (delta : Nat) : Does i (growMemory delta) := by
  intro r
  unfold growMemory
  dsimp only
  rw [leads_bind, leads_self]
  cases own : r.self.memory with
  | none => exact leads_pure.2 ⟨(Quiet.refl r).deed, rfl⟩
  | some id =>
    dsimp only
    rw [leads_bind, leads_ask]
    cases (r.world.memories.getD id default).grow delta with
    | none => exact leads_pure.2 ⟨(Quiet.refl r).deed, rfl⟩
    | some m =>
      rw [leads_bind, leads_onWorld, leads_pure]
      exact ⟨deed_aside rfl rfl, rfl⟩

/-- Every instruction ends in one of these ways. -/
theorem behaves_instr (pc next : Nat) (i : Instr) : Behaves i pc (instr pc next i) := by
  have put : ∀ {i : Instr} (dst : Nat) (v : Slot), Behaves i pc (do
      setSlot dst v
      return .go next) := fun dst v => behaves_bind fun _ => behaves_pure _
  cases i with
  | profilingEnter func =>
    intro r
    unfold instr
    rw [leads_bind, leads_onSelf, leads_pure]
    exact ⟨.inl (deed_self fun _ => rfl), nofun, .inl rfl⟩
  | prologue frameSize stub =>
    refine behaves_bind fun deep => behaves_ite (behaves_fault rfl) ?_
    intro r
    rw [leads_bind, leads_onAct, leads_pure]
    exact ⟨.inl (Quiet.deed ⟨rfl, r.act.append_beside _⟩), nofun, .inl rfl⟩
  | checkInterrupt symbol stub =>
    intro r
    unfold instr
    rw [leads_bind, leads_takeInterrupt]
    split
    · rw [if_pos rfl, leads_fault]
      exact ⟨.inl (stopped_deed r pc), nofun,
        .inr ⟨rfl, stopped_self r pc rfl, stopped_self r pc rfl, .inl ⟨stub, rfl, rfl⟩⟩⟩
    · exact behaves_pure _ r
  | const dst bits => exact put dst bits
  | unary op dst src => exact behaves_bind fun v => put dst _
  | binary op dst a b =>
    refine behaves_bind fun x => behaves_bind fun y => ?_
    cases is : op.eval x y with
    | ok v => exact put dst v
    | error t =>
      have ⟨can, other⟩ := Ssa.BinaryOp.canTrap_of_error is
      exact behaves_trap (i := .binary op dst a b) can (absurd · other)
  | convert op dst src =>
    refine behaves_bind fun x => ?_
    cases is : op.eval x with
    | ok v => exact put dst v
    | error t =>
      have ⟨can, other⟩ := Ssa.ConvertOp.canTrap_of_error is
      exact behaves_trap (i := .convert op dst src) can (absurd · other)
  | select dst cond ifTrue ifFalse =>
    exact behaves_bind fun c => behaves_bind fun t => behaves_bind fun f => put dst _
  | load kind dst addr offset stub => exact behaves_load kind dst addr offset next rfl
  | store kind addr src offset stub => exact behaves_store kind addr src offset next rfl
  | globalGet ty dst place => exact behaves_bind fun x => behaves_bind fun v => put dst v
  | globalSet ty place src =>
    refine behaves_bind fun v => ?_
    intro r
    rw [leads_bind, leads_self, leads_bind, leads_lift]
    split
    · rename_i data written
      rw [leads_bind, leads_onSelf, leads_pure]
      exact ⟨.inl (deed_self fun _ => rfl), nofun, .inl rfl⟩
    · exact (Quiet.refl r).deed.fails rfl
  | memorySize symbol dst => exact behaves_bind fun id => behaves_bind fun size => put dst _
  | memoryGrow symbol dst delta =>
    refine behaves_bind fun v => ?_
    rw [← bind_assoc]
    exact ((does_growMemory _).then fun old => inferInstance).go next
  | splat shape dst src => exact behaves_bind fun v => put dst _
  | extractLane shape signed lane dst src => exact behaves_bind fun v => put dst _
  | replaceLane shape lane dst vector value =>
    exact behaves_bind fun v => behaves_bind fun x => put dst _
  | shuffle dst a b lanes => exact behaves_bind fun x => behaves_bind fun y => put dst _
  | jump dest => exact behaves_branch dest
  | brIf cond ifTrue ifFalse =>
    exact behaves_bind fun c => behaves_ite (behaves_branch ifTrue) (behaves_branch ifFalse)
  | brTable index targets default => exact behaves_bind fun k => behaves_branch _
  | ret src => exact behaves_bind fun v => behaves_popFrame rfl v
  | trap t => exact behaves_trap rfl fun is => is ▸ rfl
  | call rel args dst => exact behaves_call rfl rel args dst next
  | callImport record args dst =>
    refine behaves_unlessStopped (behaves_bind fun target => behaves_bind fun target => ?_)
    exact (does_pushFrame rfl args dst next).go target
  | callIndirect table token index args dst =>
    exact behaves_callIndirect rfl rfl table token index args dst next
  | jumpFar target => exact behaves_pure _
  | entryPrologue nargs =>
    exact behaves_bind fun few => behaves_ite (behaves_broken _) (behaves_pure _)
  | entryReturn src => exact behaves_bind fun v => behaves_pure _
  | exit optimized symbol importIndex nargs throw =>
    refine behaves_ite (behaves_broken _) (behaves_bind fun base => behaves_bind fun few => ?_)
    exact behaves_ite (behaves_broken _) (behaves_bind fun args => behaves_pure _)
  | trapExit t =>
    refine behaves_bind fun pc => fun r => leads_trap.2 ⟨(Quiet.refl r).deed, fun _ _ => .inl rfl⟩
  | unwind =>
    intro r
    unfold instr
    rw [leads_bind, leads_takeFrom]
    have taken : Quiet r (r.withAct { r.act with pending := none }) :=
      ⟨rfl, rfl, Nat.le_refl _, fun _ _ _ is => is⟩
    cases r.act.pending with
    | none => exact leads_broken.2 ⟨taken.deed, fun _ _ => .inl rfl⟩
    | some e => exact leads_throw.2 ⟨taken.deed, fun _ _ => .inl rfl⟩

end Exec
end Wasmill
