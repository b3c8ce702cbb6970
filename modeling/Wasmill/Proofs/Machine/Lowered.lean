import Wasmill.Proofs.Code.Decoding
import Wasmill.Proofs.Machine.Calling
import Wasmill.Proofs.Ssa.Run
import Wasmill.Proofs.World.Moves

/-! Lowered functions do what they did before.

A frame of a function holds each of its values in the slot of that number. `Lower.At` relates a
state of the function to an activation in this way; every step of the function is one of the
machine, or a few. -/
namespace Wasmill
open Code Steps Exec Option List
variable {x : Slot} {step : Ssa.Step} {xs : List Slot} {a : Nat}

/-! ### Well-formed functions -/

namespace Ssa

/-- The instruction never has a result. -/
def Inst.mute : Inst → Bool
  | .store _ _ _ _ | .globalSet _ _ _ | .interruptCheck => true
  | _ => false

structure Step.WellFormed (f : Function) (s : Step) : Prop where
  narrow : s.inst.Narrow
  operands : ∀ v ∈ s.inst.operands, f.resolve v < f.values.size
  result : ∀ v, s.result = some v → f.resolve v < f.values.size ∧ s.inst.mute = false

structure Exit.WellFormed (f : Function) (exit : Exit) : Prop where
  operands : ∀ v ∈ exit.operands, f.resolve v < f.values.size
  edges : ∀ e, some e ∈ exit.edges → e.block < f.blocks.size ∧
    ∀ v ∈ e.args.toList, f.resolve v < f.values.size

structure Block.WellFormed (f : Function) (b : Block) : Prop where
  params : ∀ v ∈ b.params.toList, f.resolve v < f.values.size
  steps : ∀ s ∈ b.steps.toList, s.WellFormed f
  leave : ∀ l, b.leave = some l → l.exit.WellFormed f

/-- Values and blocks exist where they are named. -/
structure Function.Definite (f : Function) : Prop where
  entry : 0 < f.blocks.size
  blocks : ∀ b ∈ f.blocks.toList, b.WellFormed f

/-- Moreover no two parameters of a block are one value. -/
structure Function.WellFormed (f : Function) : Prop extends f.Definite where
  apart : ∀ b ∈ f.blocks.toList, (b.params.toList.map f.resolve).Nodup

instance (f : Function) (s : Step) : Decidable (s.WellFormed f) :=
  decidable_of_iff (s.inst.Narrow ∧ (∀ v ∈ s.inst.operands, f.resolve v < f.values.size) ∧
      ∀ v ∈ s.result, f.resolve v < f.values.size ∧ s.inst.mute = false)
    ⟨fun h => ⟨h.1, h.2.1, h.2.2⟩, fun h => ⟨h.narrow, h.operands, h.result⟩⟩

instance (f : Function) (exit : Exit) : Decidable (exit.WellFormed f) :=
  decidable_of_iff ((∀ v ∈ exit.operands, f.resolve v < f.values.size) ∧
      ∀ edge ∈ exit.edges, ∀ e ∈ edge, e.block < f.blocks.size ∧
        ∀ v ∈ e.args.toList, f.resolve v < f.values.size)
    ⟨fun h => ⟨h.1, fun e mem => h.2 (some e) mem e rfl⟩,
      fun h => ⟨h.operands, fun _ mem e is => h.edges e (is ▸ mem)⟩⟩

instance (f : Function) (b : Block) : Decidable (b.WellFormed f) :=
  decidable_of_iff ((∀ v ∈ b.params.toList, f.resolve v < f.values.size) ∧
    (∀ s ∈ b.steps.toList, s.WellFormed f) ∧
      ∀ l ∈ b.leave, l.exit.WellFormed f)
    ⟨fun h => ⟨h.1, h.2.1, h.2.2⟩, fun h => ⟨h.params, h.steps, h.leave⟩⟩

instance (f : Function) : Decidable f.WellFormed :=
  decidable_of_iff (0 < f.blocks.size ∧ (∀ b ∈ f.blocks.toList, b.WellFormed f) ∧
      ∀ b ∈ f.blocks.toList, (b.params.toList.map f.resolve).Nodup)
    ⟨fun h => ⟨⟨h.1, h.2.1⟩, h.2.2⟩, fun h => ⟨h.entry, h.blocks, h.apart⟩⟩

end Ssa

/-! ### What the machine answers -/

/-- The answer of the world to an action of code of an instance, unless that is a call that takes
place. -/
def World.answer (w : World) (id : Nat) : Action → Option (Response World Error)
  | .load kind place =>
    match (w.instances.getD id default).memory with
    | none => some (.failure (.internal .loadWithoutMemory) w)
    | some mem =>
      match (w.memories.getD mem default).load place kind.width with
      | some n => some (.value (kind.slot n) w)
      | none => some (.trap .memoryOutOfBounds)
  | .store kind place value =>
    match (w.instances.getD id default).memory with
    | none => some (.failure (.internal .storeWithoutMemory) w)
    | some mem =>
      if (w.memories.getD mem default).holds place kind.width then
        some (.value 0 (w.onMemory mem fun m => m.setNumber place kind.width value.toNat))
      else some (.trap .memoryOutOfBounds)
  | .globalGet ty place =>
    match (w.instances.getD id default).data.readGlobal place ty with
    | .ok v => some (.value v w)
    | .error cause => some (.failure (.internal cause) w)
  | .globalSet ty place value =>
    match (w.instances.getD id default).data.writeGlobal place ty value with
    | .ok data => some (.value 0 (w.onInstance id fun i => { i with data }))
    | .error cause => some (.failure (.internal cause) w)
  | .memorySize =>
    some
      (.value (.ofNat32 ((w.instances.getD id default).memory.elim 0 fun mem =>
        (w.memories.getD mem default).size)) w)
  | .memoryGrow delta =>
    match (w.instances.getD id default).memory with
    | none => some (.value (.ofNat32 0xffffffff) w)
    | some mem =>
      match (w.memories.getD mem default).grow delta.low32.toNat with
      | none => some (.value (.ofNat32 0xffffffff) w)
      | some m => some (.value (.ofNat32 (m.size - delta.low32.toNat)) (w.onMemory mem fun _ => m))
  | .poll =>
    if (w.instances.getD id default).interrupted then some (.trap .interrupted) else some (.value 0 w)
  | .call _ _ => none
  | .callImport _ record _ =>
    match (w.instances.getD id default).data.exitTarget record with
    | .ok _ => none
    | .error cause => some (.failure (.internal cause) w)
  | .callIndirect _ table token index _ =>
    match (w.instances.getD id default).tableAt table with
    | .error cause => some (.failure (.internal cause) w)
    | .ok t =>
      match (w.tables.getD t default).target index.low32.toNat with
      | .error t => some (.trap t)
      | .ok elem =>
        match (w.instances.getD id default).data.read token Env.sigTokenSize with
        | .error cause => some (.failure (.internal cause) w)
        | .ok expected =>
          if elem.token ≠ expected then some (.trap .badSignature)
          else if id = elem.owner ∨ w.isAlive elem.owner then none
          else some (.trap .indirectCallToNull)

/-- A call that takes place: the world afterwards, where whose code is entered, whether an instance
is left for it, and the arguments. -/
inductive World.Calls (pieces : List Piece) (w : World) (id : Nat) :
    Action → World → (entry owner : Nat) → (caller : Option Nat) → List Slot → Prop
  | direct {callee entry : Nat} {args : List Slot} :
    EnteredAt pieces (w.instances.getD id default).profiling callee entry →
      w.Calls pieces id (.call callee args) w entry id none args
  | imported {index record entry : Nat} {args : List Slot} :
    (w.instances.getD id default).data.exitTarget record = .ok entry →
      w.Calls pieces id (.callImport index record args) w entry id none args
  | own {sig table token t : Nat} {index : Slot} {args : List Slot} {elem : FuncRef} :
    (w.instances.getD id default).tableAt table = .ok t →
      (w.tables.getD t default).target index.low32.toNat = .ok elem →
      (w.instances.getD id default).data.read token Env.sigTokenSize = .ok elem.token →
        id = elem.owner →
      w.Calls pieces id (.callIndirect sig table token index args) w elem.entry id none args
  | other {sig table token t : Nat} {index : Slot} {args : List Slot} {elem : FuncRef} :
    (w.instances.getD id default).tableAt table = .ok t →
      (w.tables.getD t default).target index.low32.toNat = .ok elem →
      (w.instances.getD id default).data.read token Env.sigTokenSize = .ok elem.token →
        id ≠ elem.owner →
      w.isAlive elem.owner = true →
      w.Calls pieces id (.callIndirect sig table token index args)
        (w.holdInstance elem.owner) elem.entry elem.owner (some id) args

/-! ### Functions in code -/

/-- The function lies in the code of the module, its blocks at their places from `start` on. -/
structure Module.Bears (m : Module) (code : ByteArray) (reach : Nat) (pieces : List Piece)
    (filled : Nat → Option Nat)
    (func : Nat) (f : Ssa.Function) (start : Nat) (place : Nat → Nat) : Prop where
  shows : m.Shows code reach pieces filled
  body : ∃ bytecode lines, (start, ⟨.function func bytecode (start + profilingEntrySize), lines⟩) ∈
    sited 0 pieces ∧
    Lower.Lowered func f lines place
  small : f.values.size < UInt32.size
  well : f.Definite

/-- The activation stands where the state does, and holds its values. -/
structure Code.Lower.At (f : Ssa.Function) (place : Nat → Nat) (start : Nat) (s : Ssa.State)
    (a : Activation) : Prop where
  block : s.block < f.blocks.size
  index : s.index ≤ (f.block s.block).steps.size
  pc : a.pc = start + place s.block + extent ((Lower.body f (f.block s.block)).take s.index)
  slots : ∀ v x, s.vals v = some x → a.slot? v = some x
  frame : a.base + f.values.size ≤ a.slots.size

namespace Module.Bears
variable {m : Module} {code : ByteArray} {reach : Nat} {pieces : List Piece}
  {filled : Nat → Option Nat} {func : Nat}
  {f : Ssa.Function} {start : Nat} {place : Nat → Nat} {b i : Nat} {vs : List Ssa.Value}
  {lines : List Line} {line : Line}

theorem getElem?_block (lt : b < f.blocks.size) : f.blocks[b]? = some (f.block b) := by
  simp [Ssa.Function.block, Array.getD_eq_getD_getElem?, lt]

/-- The place after a step is that of the next one. -/
theorem extent_take_succ (is : lines[i]? = some line) :
    extent (lines.take (i + 1)) = extent (lines.take i) + line.size := by
  obtain ⟨inside, rfl⟩ := List.getElem?_eq_some_iff.1 is
  rw [take_succ_eq_append_getElem inside, extent_append, extent_cons, extent_nil, Nat.add_zero]

theorem mem_located (is : lines[i]? = some line) :
    (start + extent (lines.take i), line) ∈ located start lines := by
  obtain ⟨lt, rfl⟩ := List.getElem?_eq_some_iff.1 is
  have split := take_append_drop i lines
  rw [drop_eq_getElem_cons lt] at split
  rw [← congrArg (located start) split, located_append, located_cons]
  exact mem_append_right _ mem_cons_self

theorem step_full (well : step.WellFormed f) : (Lower.step f step).Full := by
  intro dst x y lanes is
  have narrow := well.narrow
  unfold Lower.step at is
  cases inst : step.inst <;> rw [inst] at is narrow <;> cases is
  exact narrow.1

theorem readAll_some {vals : Ssa.Slots} (is : f.readAll vals vs = some xs) {a : Activation}
    (holds : ∀ v x, vals v = some x → a.slot? v = some x) :
    (∀ i ∈ vs.map f.resolve, (a.slot? i).isSome) ∧
      (vs.map f.resolve).map (fun i => (a.slot? i).getD 0) = xs := by
  induction vs generalizing xs with
  | nil =>
    cases is
    exact ⟨by simp, rfl⟩
  | cons v vs ih =>
    obtain ⟨x, rest, first, more, rfl⟩ := Ssa.Function.readAll_cons_eq_some.1 is
    obtain ⟨some', values⟩ := ih more
    have first := holds _ _ first
    refine ⟨forall_mem_cons.2 ⟨by rw [first]; rfl, some'⟩, ?_⟩
    rw [map_cons, map_cons, values, first]
    rfl

section
variable (h : m.Bears code reach pieces filled func f start place) {v : Ssa.Value}
include h

/-- Every step of a block has its line. -/
theorem step_line (lt : b < f.blocks.size) (is : (f.block b).steps[i]? = some step) :
    ∃ p, (start, p) ∈ sited 0 pieces ∧ p.func? = some func ∧
      (start + place b + extent ((Lower.body f (f.block b)).take i),
        Lower.step f step) ∈ located start p.lines := by
  obtain ⟨bytecode, lines, there, lowered⟩ := h.body
  refine ⟨_, there, rfl, ?_⟩
  obtain ⟨before, after, last, rfl, at', _⟩ := lowered.block b _ (getElem?_block lt)
  have line : (Lower.body f (f.block b))[i]? = some (Lower.step f step) := by simp [Lower.body, is]
  show _ ∈ located start (before ++ Lower.body f (f.block b) ++ last :: after)
  rw [located_append, located_append, at']
  exact mem_append_left _ (mem_append_right _ (mem_located line))

/-- Every block has a line for its exit. -/
theorem exit_line (lt : b < f.blocks.size) :
    ∃ p last, (start, p) ∈ sited 0 pieces ∧ p.func? = some func ∧
      (start + place b + extent (Lower.body f (f.block b)), last) ∈ located start p.lines ∧
      Lower.blockExit f (fun target =>
        (place target : Int) - (place b + extent (Lower.body f (f.block b)) : Nat)) (f.block b) =
        .ok last := by
  obtain ⟨bytecode, lines, there, lowered⟩ := h.body
  obtain ⟨before, after, last, rfl, at', exits⟩ := lowered.block b _ (getElem?_block lt)
  refine ⟨_, last, there, rfl, ?_, exits⟩
  show _ ∈ located start (before ++ Lower.body f (f.block b) ++ last :: after)
  rw [located_append, located_append, located_cons, at', extent_append, ← Nat.add_assoc]
  exact mem_append_right _ mem_cons_self

theorem word_value (known : f.resolve v < f.values.size) : word (f.resolve v) = f.resolve v :=
  word_of_lt (Nat.lt_trans known h.small)

theorem value_ne_noSlot (known : f.resolve v < f.values.size) : f.resolve v ≠ noSlot := by
  have small : f.values.size ≤ noSlot := Nat.le_of_lt_succ h.small
  exact Nat.ne_of_lt (Nat.lt_of_lt_of_le known small)

theorem word_result (well : step.WellFormed f) :
    word (Lower.result f step.result) = Lower.result f step.result := by
  cases is : step.result with
  | none => rfl
  | some v => exact h.word_value (well.result v is).1

theorem word_values (known : ∀ v ∈ vs, f.resolve v < f.values.size) :
    (vs.map (Lower.slot f)).map word = vs.map f.resolve := by
  rw [List.map_map]
  exact map_congr_left fun v mem => h.word_value (known v mem)

theorem step_well (lt : b < f.blocks.size) (is : (f.block b).steps[i]? = some step) :
    step.WellFormed f :=
  (h.well.blocks _ (Ssa.Function.block_mem lt)).steps step (mem_toList_of_at is)

/-- An instruction without holes is met with its operands as they are. -/
theorem met (well : step.WellFormed f) (whole : (Lower.step f step).instr.holes = []) (pc : Nat) :
    ((Lower.step f step).at pc filled).narrowed = (Lower.step f step).instr := by
  rw [Line.at, Instr.fill_whole whole]
  exact Lower.step_narrowed (fun v mem => Nat.lt_trans (well.operands v mem) h.small)
    (fun v is => Nat.lt_trans (well.result v is).1 h.small) well.narrow

end

/-- The world after a trap: a request to stop is used up. -/
def afterTrap (w : World) (id : Nat) (act : Action) : World :=
  if act = .poll then w.onInstance id fun i => { i with interrupted := false } else w

section
variable {r : Running} {s : Ssa.State} {step : Ssa.Step} {Q : Next → Running → Prop}
  {E : Error → Running → Prop}

/-- What there is to show of a step that acts on its surroundings: by the answer it goes on, fails,
faults or traps, or makes a call. -/
abbrev Faced (m : Module) (pieces : List Piece) (filled : Nat → Option Nat)
    (func srcloc dst next : Nat) (r : Running) (act : Action)
    (Q : Next → Running → Prop) (E : Error → Running → Prop) : Option (Response World Error) → Prop
  | some (.value v w') => Q (.go next) { world := w', act := r.act.set dst v }
  | some (.failure e w') => E e { world := w', act := r.act }
  | some (.trap t) =>
    (∀ kind, Shows.stubTrap kind = some t →
      r.self.module.trapInfo t r.act.pc = { trap := t, func := some func, offset := some srcloc } →
        Q (.go (m.stubs.get kind)) ⟨afterTrap r.world r.act.inst act,
          { r.act with faultPc := r.act.pc }⟩) ∧
    E (.trap { trap := t, func := some func, offset := some srcloc }) r
  | none =>
    ∀ w' goal entry owner caller args, r.world.Calls pieces r.act.inst act w' entry owner caller args →
    Shows.ComesTo pieces filled goal entry → (goal ≠ entry → ∃ callee, act = .call callee args) →
    Q (.go goal) ⟨w', r.act.called args dst next r.act.pc owner caller⟩

abbrev Faces (m : Module) (pieces : List Piece) (filled : Nat → Option Nat)
    (func srcloc dst next : Nat) (r : Running) (act : Action)
    (Q : Next → Running → Prop) (E : Error → Running → Prop) : Prop :=
  Faced m pieces filled func srcloc dst next r act Q E (r.world.answer r.act.inst act)

namespace Faces
variable {srcloc dst next : Nat} {ty : ValType}

-- The equations are worked out here, once for all proofs.
attribute [local simp] World.answer

theorem self_eq : r.world.instances.getD r.act.inst default = r.self := rfl

theorem globalGet {place : Nat}
    (h : Faces m pieces filled func srcloc dst next r (.globalGet ty place) Q E)
    (fits : dst = noSlot ∨ r.act.base + dst < r.act.slots.size) :
    Leads (Exec.instr r.act.pc next (.globalGet ty dst place)) r Q E := by
  unfold Exec.instr
  rw [leads_bind, leads_self, leads_bind, Exec.leads_lift]
  cases got : r.self.data.readGlobal place ty <;> simp only [Faces, World.answer, self_eq, got] at h
  · exact h
  · show Leads (Exec.setSlot _ _ >>= _) r Q E
    rwa [leads_bind, leads_setSlot_ok fits, leads_pure]

theorem globalSet {place : Nat}
    (h : Faces m pieces filled func srcloc noSlot next r (.globalSet ty place x) Q E)
    (read : r.act.slot? a = some x) :
    Leads (Exec.instr r.act.pc next (.globalSet ty place a)) r Q E := by
  unfold Exec.instr
  rw [leads_bind, leads_slot_some read, leads_bind, leads_self, leads_bind, Exec.leads_lift]
  cases set : r.self.data.writeGlobal place ty x <;> simp only [Faces, World.answer,
    self_eq, set] at h
  · exact h
  · show Leads (Exec.onSelf _ >>= _) r Q E
    rw [leads_bind, leads_onSelf, leads_pure]
    exact h

theorem memoryGrow {memory : Nat}
    (h : Faces m pieces filled func srcloc dst next r (.memoryGrow x) Q E)
    (read : r.act.slot? a = some x) (fits : dst = noSlot ∨ r.act.base + dst < r.act.slots.size) :
    Leads (Exec.instr r.act.pc next (.memoryGrow memory dst a)) r Q E := by
  unfold Exec.instr Exec.growMemory
  rw [leads_bind, leads_slot_some read, leads_bind, leads_bind, leads_self]
  cases own' : r.self.memory with
  | none =>
    simp only [Faces, World.answer, self_eq, own'] at h
    rwa [leads_pure, leads_bind, leads_setSlot_ok fits, leads_pure]
  | some mem =>
    show Leads (Exec.ask _ >>= _) r _ E
    rw [leads_bind, leads_ask]
    cases grown : (r.world.memories.getD mem default).grow x.low32.toNat <;>
      simp only [Faces, World.answer, self_eq, own', grown] at h
    · rwa [leads_pure, leads_bind, leads_setSlot_ok fits, leads_pure]
    · rename_i m'
      rw [leads_bind, leads_onWorld, leads_pure, leads_bind]
      refine (leads_setSlot_ok (r := ⟨r.world.onMemory mem fun _ => m', r.act⟩) fits).2 ?_
      rwa [leads_pure]

section
variable (quiet : ¬ (r.act.signals ∧ r.self.interrupted)) {args : List Nat}
  (some' : ∀ i ∈ args, (r.act.slot? i).isSome)
  (values : args.map (fun i => (r.act.slot? i).getD 0) = xs) {offset : Nat}
include quiet some' values

theorem direct {callee target : Nat}
    (h : Faces m pieces filled func srcloc dst next r (.call callee xs) Q E)
    (shows : m.Shows code reach pieces filled) (own : r.Within m code)
    (settled : Settled reach pieces filled r.act.pc callee target) :
    Leads (Exec.call r.act.pc ((target : Int) - r.act.pc) args dst next) r Q E := by
  obtain ⟨goal, entry, enters, lands, leads⟩ :=
    shows.leads_call (E := E) own settled quiet some' dst next
  refine leads.2 ?_
  rw [values]
  exact h _ _ _ _ _ _ (.direct enters) lands fun _ => ⟨callee, rfl⟩

theorem imported {index record : Nat}
    (h : Faces m pieces filled func srcloc dst next r (.callImport index record xs) Q E) :
    Leads (Exec.instr r.act.pc next (.callImport record args dst)) r Q E := by
  unfold Exec.instr
  rw [leads_unlessStopped, if_neg quiet, leads_bind, leads_self, leads_bind, Exec.leads_lift]
  cases target : r.self.data.exitTarget record <;> simp only [Faces, World.answer, self_eq,
    target] at h
  · exact h
  · show Leads (Exec.pushFrame _ _ _ _ >>= _) r Q E
    rw [leads_bind, leads_pushFrame_ok some', leads_pure, values]
    exact h _ _ _ _ _ _ (.imported target) (.inl rfl) fun ne => absurd rfl ne

variable (blame : ∀ t,
  r.self.module.trapInfo t r.act.pc = { trap := t, func := some func, offset := some srcloc })
include blame

theorem indirect {sig table token index : Nat}
    (h : Faces m pieces filled func srcloc dst next r (.callIndirect sig table token x xs) Q E)
    (read : r.act.slot? index = some x) :
    Leads (Exec.callIndirect r.act.pc table token index args dst next) r Q E := by
  unfold Exec.callIndirect
  rw [leads_unlessStopped, if_neg quiet, leads_bind, leads_slot_some read]
  dsimp only
  rw [leads_bind, leads_self, leads_bind, Exec.leads_lift]
  cases tables : r.self.tableAt table with
  | error cause =>
    simp only [Faces, World.answer, self_eq, tables] at h
    exact h
  | ok t =>
    show Leads (Exec.ask _ >>= _) r Q E
    rw [leads_bind, leads_ask]
    cases found : (r.world.tables.getD t default).target x.low32.toNat with
    | error t =>
      simp only [Faces, World.answer, self_eq, tables, found] at h
      rw [leads_trap, blame]
      exact h.2
    | ok elem =>
      dsimp only
      rw [leads_bind, leads_self, leads_bind, Exec.leads_lift]
      cases declared : r.self.data.read token Env.sigTokenSize <;>
        simp only [Faces, World.answer, self_eq, tables, found, declared] at h
      · exact h
      rename_i expected
      dsimp only
      by_cases other : elem.token = expected
      · cases other
        rw [if_neg (not_not_intro rfl)] at h ⊢
        rw [leads_bind, leads_test]
        by_cases home : r.act.inst = elem.owner
        · rw [if_pos (Or.inl home)] at h
          rw [if_pos (decide_eq_true home), leads_bind, leads_pushFrame_ok some',
            leads_pure, values]
          exact h _ _ _ _ _ _ (.own tables found declared home) (.inl rfl) fun ne => absurd rfl ne
        · rw [if_neg (by rw [decide_eq_true_iff]; exact home), leads_bind, leads_test]
          by_cases live : r.world.isAlive elem.owner = true
          · rw [if_pos (Or.inr live)] at h
            rw [if_pos live, leads_bind, leads_pushFrame_ok some', leads_bind, leads_onWorld,
              leads_pure, values]
            exact h _ _ _ _ _ _ (.other tables found declared home live) (.inl rfl)
              fun ne => absurd rfl ne
          · rw [if_neg (not_or_intro home live)] at h
            rw [if_neg live, leads_trap, blame]
            exact h.2
      · rw [if_pos other] at h ⊢
        rw [leads_trap, blame]
        exact h.2

omit quiet some' values

theorem load {kind : Ssa.LoadKind}
    (h : Faces m pieces filled func srcloc dst next r (.load kind (x.low32.toNat + offset)) Q E)
    (read : r.act.slot? a = some x) (fits : dst = noSlot ∨ r.act.base + dst < r.act.slots.size) :
    Leads (Exec.load kind r.act.pc dst a offset (m.stubs.get .outOfBounds) next) r Q E := by
  unfold Exec.load Exec.address Exec.memory
  simp only [leads_bind, leads_slot_some read, leads_pure, leads_self]
  cases own' : r.self.memory with
  | none =>
    simp only [Faces, World.answer, self_eq, own'] at h
    exact leads_broken.2 h
  | some mem =>
    rw [leads_pure, leads_ask]
    cases loaded : (r.world.memories.getD mem default).load (x.low32.toNat + offset) kind.width with
    | some n =>
      simp only [Faces, World.answer, self_eq, own', loaded] at h
      rwa [leads_bind, leads_setSlot_ok fits, leads_pure]
    | none =>
      simp only [Faces, World.answer, self_eq, own', loaded] at h
      exact leads_fault.2 (h.1 .outOfBounds rfl (blame _))

theorem store {kind : Ssa.StoreKind} {y : Slot}
    (h : Faces m pieces filled func srcloc noSlot next r
      (.store kind (x.low32.toNat + offset) y) Q E)
    (first : r.act.slot? a = some x) (second : r.act.slot? b = some y) :
    Leads (Exec.store kind r.act.pc a b offset (m.stubs.get .outOfBounds) next) r Q E := by
  unfold Exec.store Exec.address Exec.memory
  simp only [leads_bind, leads_slot_some first, leads_pure, leads_self]
  cases own' : r.self.memory with
  | none =>
    simp only [Faces, World.answer, self_eq, own'] at h
    exact leads_broken.2 h
  | some mem =>
    simp only [Faces, World.answer, self_eq, own'] at h
    simp only [leads_pure, leads_slot_some second, leads_test, leads_ite, leads_bind, leads_onWorld,
      leads_fault]
    by_cases holds : (r.world.memories.getD mem default).holds
      (x.low32.toNat + offset) kind.width = true
    · rw [if_pos holds] at h ⊢
      exact h
    · rw [if_neg holds] at h ⊢
      exact h.1 .outOfBounds rfl (blame _)

theorem poll {mode : Nat} (h : Faces m pieces filled func srcloc noSlot next r .poll Q E) :
    Leads (Exec.instr r.act.pc next (.checkInterrupt mode (m.stubs.get .interrupt))) r Q E := by
  unfold Exec.instr
  rw [leads_bind, leads_takeInterrupt]
  cases stop : r.self.interrupted with
  | true =>
    simp only [Faces, World.answer, self_eq, stop, if_true] at h
    simp only [if_true, leads_fault]
    exact h.1 .interrupt rfl (blame _)
  | false =>
    simp only [Faces, World.answer, self_eq, stop, Bool.false_eq_true, if_false] at h
    simp only [Bool.false_eq_true, if_false, leads_pure]
    exact h

end
end Faces

/-- What there is to show of a step, by what it demands. -/
abbrev Meets (m : Module) (pieces : List Piece) (filled : Nat → Option Nat)
    (func srcloc dst next : Nat) (r : Running)
    (Q : Next → Running → Prop) (E : Error → Running → Prop) : Demand → Prop
  | .value v => Q (.go next) (r.withAct (r.act.set dst v))
  | .trap t => E (.trap { trap := t, func := some func, offset := some srcloc }) r
  | .action act =>
    ¬ (r.act.signals ∧ r.self.interrupted) ∧ Faces m pieces filled func srcloc dst next r act Q E

theorem Meets.action {srcloc dst next : Nat} {act : Action} {answer : Option (Response World Error)}
    (quiet : ¬ (r.act.signals ∧ r.self.interrupted)) (is : r.world.answer r.act.inst act = answer)
    (faced : Faced m pieces filled func srcloc dst next r act Q E answer) :
    Meets m pieces filled func srcloc dst next r Q E (.action act) :=
  ⟨quiet, by subst is; exact faced⟩

section
variable (h : m.Bears code reach pieces filled func f start place) (own : r.Within m code)
  (at' : Lower.At f place start s r.act) (is : (f.block s.block).steps[s.index]? = some step)
include h at' is

theorem result_fits : Lower.result f step.result = noSlot ∨
    r.act.base + Lower.result f step.result < r.act.slots.size := by
  cases result : step.result with
  | none => exact .inl rfl
  | some v =>
    have lt := ((h.step_well at'.block is).result v result).1
    exact .inr (Nat.lt_of_lt_of_le (Nat.add_lt_add_left lt _) at'.frame)

include own

/-- The machine executes the line of a step. -/
theorem leads_exec :
    Leads Exec.step r Q E ↔ Leads (Exec.instr r.act.pc (r.act.pc + (Lower.step f step).size)
      ((Lower.step f step).at r.act.pc filled).narrowed) r Q E := by
  obtain ⟨p, there, _, inside⟩ := h.step_line at'.block is
  rw [← at'.pc] at inside
  exact h.shows.leads_step (located_of_sited there inside)
    (step_full (h.step_well at'.block is)) own.code rfl

/-- A trap at the line of a step is blamed on the operator that the step came from. -/
theorem blame (traps : (Lower.step f step).traps = some step.srcloc) (t : Trap) :
    r.self.module.trapInfo t r.act.pc =
      { trap := t, func := some func, offset := some step.srcloc } := by
  obtain ⟨p, there, is, inside⟩ := h.step_line at'.block is
  rw [← at'.pc] at inside
  rw [own.module, h.shows.lists.trapInfo there inside, traps, is]
  rfl

/-- A step puts what it computes into the slot of its result, traps in place, or acts on its
surroundings. -/
theorem executes {d : Demand} (demand : step.inst.demand f s.vals = some d)
    (meets : Meets m pieces filled func step.srcloc (Lower.result f step.result)
      (r.act.pc + (Lower.step f step).size) r Q E d) :
    Leads Exec.step r Q E := by
  have well := h.step_well at'.block is
  have dst := h.word_result well
  have fits := h.result_fits at' is
  have read : ∀ {v x}, f.read s.vals v = some x → r.act.slot? (Lower.slot f v) = some x :=
    fun is => at'.slots _ _ is
  have known : ∀ v ∈ step.inst.operands, word (Lower.slot f v) = Lower.slot f v :=
    fun v mem => h.word_value (well.operands v mem)
  have narrow := well.narrow
  have mute : step.inst.mute = true → step.result = none := by
    intro mute
    cases is : step.result with
    | none => rfl
    | some v => rw [(well.result v is).2] at mute; cases mute
  obtain ⟨p, there, _, inside⟩ := h.step_line at'.block is
  rw [← at'.pc] at inside
  have mem := located_of_sited there inside
  have stub : ∀ place kind, (Lower.step f step).instr.stub? = some (place, kind) →
      word ((filled (r.act.pc + place)).getD unlinked) = m.stubs.get kind := by
    intro place kind is
    rw [h.shows.linked.stubs _ _ place kind mem is]
    exact (h.shows.linkable_of_lt (h.shows.stub_lt kind)).1
  have blame := h.blame own at' is
  have calls := @Shows.call _ _ _ _ _ _ _ h.shows mem
  rw [h.leads_exec own at' is]
  generalize r.act.pc + (Lower.step f step).size = next at meets ⊢
  obtain ⟨inst, result, srcloc⟩ := step
  cases inst with
  | const bits =>
    cases demand
    rw [h.met well rfl]
    simp only [Lower.step, Exec.instr, leads_bind, leads_setSlot_ok fits, leads_pure]
    exact meets
  | unary op a | splat shape a | extractLane shape signed lane a =>
    obtain ⟨x, first, is⟩ := bind_eq_some_iff.1 demand
    cases is
    rw [h.met well rfl]
    simp only [Lower.step, Exec.instr, leads_bind, leads_slot_some (read first),
      leads_setSlot_ok fits, leads_pure]
    exact meets
  | binary op a b =>
    obtain ⟨x, first, demand⟩ := bind_eq_some_iff.1 demand
    obtain ⟨y, second, is⟩ := bind_eq_some_iff.1 demand
    cases is
    rw [h.met well rfl]
    simp only [Lower.step, Exec.instr, leads_bind, leads_slot_some (read first),
      leads_slot_some (read second)]
    cases eval : op.eval x y with
    | error t =>
      have traps : op.canTrap = true := (Ssa.BinaryOp.canTrap_of_error eval).1
      rw [eval] at meets
      rwa [leads_trap, blame (by simp [Lower.step, traps])]
    | ok v =>
      rw [eval] at meets
      simp only [leads_bind, leads_setSlot_ok fits, leads_pure]
      exact meets
  | convert op a =>
    obtain ⟨x, first, is⟩ := bind_eq_some_iff.1 demand
    cases is
    rw [h.met well rfl]
    simp only [Lower.step, Exec.instr, leads_bind, leads_slot_some (read first)]
    cases eval : op.eval x with
    | error t =>
      have traps : op.canTrap = true := (Ssa.ConvertOp.canTrap_of_error eval).1
      rw [eval] at meets
      rwa [leads_trap, blame (by simp [Lower.step, traps])]
    | ok v =>
      rw [eval] at meets
      simp only [leads_bind, leads_setSlot_ok fits, leads_pure]
      exact meets
  | select c t e =>
    obtain ⟨x, first, demand⟩ := bind_eq_some_iff.1 demand
    obtain ⟨y, second, demand⟩ := bind_eq_some_iff.1 demand
    obtain ⟨z, third, is⟩ := bind_eq_some_iff.1 demand
    cases is
    rw [h.met well rfl]
    simp only [Lower.step, Exec.instr, leads_bind, leads_slot_some (read first),
      leads_slot_some (read second),
      leads_slot_some (read third), leads_setSlot_ok fits, leads_pure]
    exact meets
  | replaceLane shape lane a b | shuffle a b lanes =>
    obtain ⟨x, first, demand⟩ := bind_eq_some_iff.1 demand
    obtain ⟨y, second, is⟩ := bind_eq_some_iff.1 demand
    cases is
    rw [h.met well rfl]
    simp only [Lower.step, Exec.instr, leads_bind, leads_slot_some (read first),
      leads_slot_some (read second),
      leads_setSlot_ok fits, leads_pure]
    exact meets
  | load kind a offset =>
    obtain ⟨x, first, is⟩ := bind_eq_some_iff.1 demand
    cases is
    show Leads (Exec.load kind r.act.pc (word (Lower.result f result)) (word (Lower.slot f a))
      (word offset)
      (word ((filled (r.act.pc + 14)).getD unlinked)) next) r Q E
    rw [dst, known a (by simp [Ssa.Inst.operands]), word_of_lt narrow, stub 14 .outOfBounds rfl]
    exact Faces.load (blame rfl) meets.2 (read first) fits
  | store kind a b offset =>
    obtain ⟨x, first, demand⟩ := bind_eq_some_iff.1 demand
    obtain ⟨y, second, is⟩ := bind_eq_some_iff.1 demand
    cases is
    cases mute rfl
    show Leads (Exec.store kind r.act.pc (word (Lower.slot f a)) (word (Lower.slot f b))
      (word offset)
      (word ((filled (r.act.pc + 14)).getD unlinked)) next) r Q E
    rw [known a (by simp [Ssa.Inst.operands]), known b (by simp [Ssa.Inst.operands]),
      word_of_lt narrow, stub 14 .outOfBounds rfl]
    exact Faces.store (blame rfl) meets.2 (read first) (read second)
  | globalGet ty place' =>
    cases demand
    rw [h.met well rfl]
    exact meets.2.globalGet fits
  | globalSet ty place' a =>
    obtain ⟨x, first, is⟩ := bind_eq_some_iff.1 demand
    cases is
    cases mute rfl
    rw [h.met well rfl]
    exact meets.2.globalSet (read first)
  | memorySize =>
    cases demand
    show Leads (Exec.instr _ next (.memorySize _ (word (Lower.result f result)))) r Q E
    rw [dst]
    unfold Exec.instr
    rw [leads_bind, leads_self, leads_bind, leads_ask, leads_bind,
      leads_setSlot_ok fits, leads_pure]
    exact meets.2
  | memoryGrow a =>
    obtain ⟨x, first, is⟩ := bind_eq_some_iff.1 demand
    cases is
    show Leads
      (Exec.instr _ next (.memoryGrow _ (word (Lower.result f result)) (word (Lower.slot f a)))) r Q E
    rw [dst, known a (by simp [Ssa.Inst.operands])]
    exact meets.2.memoryGrow (read first) fits
  | interruptCheck =>
    cases demand
    cases mute rfl
    show Leads
      (Exec.instr _ next (.checkInterrupt _ (word ((filled (r.act.pc + 5)).getD unlinked)))) r Q E
    rw [stub 5 .interrupt rfl]
    exact Faces.poll (blame rfl) meets.2
  | call callee args =>
    obtain ⟨xs, all, is⟩ := bind_eq_some_iff.1 demand
    cases is
    obtain ⟨target, rel, args', dst', is, settled, met⟩ := calls rfl
    cases is
    obtain ⟨some', values⟩ := readAll_some all at'.slots
    rw [met, h.word_values fun v mem => well.operands v (by simpa [Ssa.Inst.operands] using mem),
      dst]
    exact Faces.direct meets.1 some' values meets.2 h.shows own settled
  | callImport index record args =>
    obtain ⟨xs, all, is⟩ := bind_eq_some_iff.1 demand
    cases is
    obtain ⟨some', values⟩ := readAll_some all at'.slots
    rw [h.met well rfl]
    exact Faces.imported meets.1 some' values meets.2
  | callIndirect sig table token index args =>
    obtain ⟨x, first, demand⟩ := bind_eq_some_iff.1 demand
    obtain ⟨xs, all, is⟩ := bind_eq_some_iff.1 demand
    cases is
    obtain ⟨some', values⟩ := readAll_some all at'.slots
    rw [h.met well rfl]
    exact Faces.indirect meets.1 some' values (blame rfl) meets.2 (read first)

end
end

end Module.Bears
end Wasmill
