import Wasmill.Proofs.Machine.Fetching
import Wasmill.Proofs.Machine.Moving

/-! Calls and traps in linked code.

A direct call comes to its callee, through a far jump if need be, and to the counting entry while
profiling. An instruction that faults goes to a stub, which traps on its behalf. -/
namespace Wasmill
open Code Steps Exec

/-- The instance whose code runs has this module and this code. -/
structure Running.Within (r : Running) (m : Module) (code : ByteArray) : Prop where
  module : r.self.module = m
  code : r.self.code = code

/-- A call of the function enters there; while profiling, at the counting entry. -/
def Code.EnteredAt (pieces : List Piece) (profiling : Bool) (func entry : Nat) : Prop :=
  ∃ s p, (s, p) ∈ sited 0 pieces ∧
    ((∃ bytecode regular, p.kind = .function func bytecode regular ∧ entry = if profiling then s
      else regular) ∨
      p.kind = .interpExit func ∧ entry = s)

namespace Module.Shows
variable {m : Module} {code : ByteArray} {reach : Nat} {pieces : List Piece}
  {filled : Nat → Option Nat} {r : Running}
  {E : Error → Running → Prop} {callee target entry : Nat} (h : m.Shows code reach pieces filled)
include h

theorem opcode {o : Nat} {line : Line} (mem : (o, line) ∈ located 0 (linesOf pieces)) :
    Fetch.opcode code o = .ok ((line.at o filled).opcode, o + 1) :=
  (fetches_opcode _).read code o (h.linked.code.holds mem).left

/-- The operand of a far jump, as the machine reads it. -/
theorem far_target (far : FarJump pieces callee target) :
    ∃ entry, Code.Enters pieces callee entry ∧ filled (target + Chunk.firstOperand) = some entry ∧
      word entry = entry ∧
      Fetch.linked code (target + 1) = .ok (entry, target + 5) := by
  obtain ⟨entry, is, enters⟩ := h.linked.fars callee target far
  obtain ⟨whole, linked⟩ := h.linkable_of_lt (h.enters_lt enters)
  have holds := h.linked.code.holds far.there
  rw [Line.at_far is] at holds
  have read := (fetches_linked linked).read code (target + 1) holds.right
  rw [whole] at read
  exact ⟨entry, enters, is, whole, read⟩

variable (own : r.Within m code)
include own

/-- The entry that counts, for a function that is entered there. -/
theorem counting (enters : Code.Enters pieces callee entry) :
    ∃ counting, EnteredAt pieces true callee counting ∧ ∀ {Q : Nat → Running → Prop},
      Leads (do
        match ← Exec.self (·.module.rangeAt? entry) with
        | some { kind := .function _ _ regular, start, .. } =>
          return if regular = entry then start else entry
        | _ => return entry : Exec Nat) r Q E ↔ Q counting r := by
  obtain ⟨s, p, there, is⟩ := enters
  obtain ⟨line, _, _, inside, _⟩ := h.entered s p callee entry there is
  have range : m.rangeAt? entry = some (p.range s) := by
    have ⟨low, high⟩ := located_le inside
    refine h.lists.rangeAt? there low ?_
    have := line.size_pos
    unfold Piece.size
    omega
  rcases is with ⟨bytecode, kind⟩ | ⟨kind, rfl⟩
  · refine ⟨s, ⟨s, p, there, .inl ⟨bytecode, entry, kind, rfl⟩⟩, ?_⟩
    intro Q
    rw [leads_bind, leads_self, own.module, range]
    unfold Piece.range
    rw [kind]
    dsimp only
    rw [if_pos rfl, leads_pure]
  · refine ⟨entry, ⟨entry, p, there, .inr ⟨kind, rfl⟩⟩, ?_⟩
    intro Q
    rw [leads_bind, leads_self, own.module, range]
    unfold Piece.range
    rw [kind]
    exact leads_pure

/-- While profiling, a call is counted, wherever it leads first. -/
theorem leads_countingEntry
    (leads : Code.Enters pieces callee target ∨ FarJump pieces callee target) :
    ∃ counting, EnteredAt pieces true callee counting ∧ ∀ {Q : Nat → Running → Prop},
      Leads (Exec.countingEntry target) r Q E ↔ Q counting r := by
  unfold Exec.countingEntry
  rcases leads with enters | far
  · obtain ⟨counting, there, rest⟩ := h.counting (E := E) own enters
    refine ⟨counting, there, ?_⟩
    intro Q
    obtain ⟨s, p, sited, is⟩ := enters
    obtain ⟨line, size, stub, inside, is⟩ := h.entered s p callee target sited is
    have op := h.opcode (located_of_sited sited inside)
    have prologue : (line.at target filled).opcode = .prologue := by
      unfold Line.at
      rw [is]
      rfl
    rw [prologue] at op
    rw [leads_bind, leads_self, own.code, leads_bind, leads_lift_ok op]
    exact rest
  · obtain ⟨entry, enters, _, _, read⟩ := h.far_target far
    obtain ⟨counting, there, rest⟩ := h.counting (E := E) own enters
    refine ⟨counting, there, ?_⟩
    intro Q
    have op : Fetch.opcode code target = .ok (.jumpFar, target + 1) := h.opcode far.there
    rw [leads_bind, leads_self, own.code, leads_bind, leads_lift_ok op]
    show Leads (Exec.lift (Fetch.linked code (target + 1)) >>= _) r Q E ↔ _
    rw [leads_bind, leads_lift_ok read]
    exact rest

/-- Where a call that is directed to `goal` comes to: there, or to where the far jump there leads.
-/
def ComesTo (pieces : List Piece) (filled : Nat → Option Nat) (goal entry : Nat) : Prop :=
  goal = entry ∨ (∃ callee, FarJump pieces callee goal) ∧
    filled (goal + Chunk.firstOperand) = some entry

/-- A direct call opens a frame with its arguments and comes to its callee. -/
theorem leads_call (settled : Settled reach pieces filled r.act.pc callee target)
    (quiet : ¬ (r.act.signals ∧ r.self.interrupted))
    {args : List Nat} (read : ∀ arg ∈ args, (r.act.slot? arg).isSome) (dst next : Nat) :
    ∃ goal entry, EnteredAt pieces r.self.profiling callee entry ∧
      ComesTo pieces filled goal entry ∧
      ∀ {Q : Next → Running → Prop}, Leads
        (Exec.call r.act.pc ((target : Int) - r.act.pc) args dst next) r Q E ↔
        Q (.go goal)
          (r.withAct (r.act.called (args.map fun arg =>
            (r.act.slot? arg).getD 0) dst next r.act.pc r.act.inst none)) := by
  have relative : Exec.relative r.act.pc ((target : Int) - r.act.pc) = pure target := by
    unfold Exec.relative
    rw [if_pos (by omega)]
    congr 1
    omega
  have call : ∀ {Q : Next → Running → Prop} {goal : Nat}, Leads (do
      Exec.pushFrame args dst next none
      return .go goal : Exec Next) r Q E ↔
      Q (.go goal)
        (r.withAct (r.act.called (args.map fun arg =>
          (r.act.slot? arg).getD 0) dst next r.act.pc r.act.inst none)) := by
    intro Q goal
    rw [leads_bind, leads_pushFrame_ok read, leads_pure]
    rfl
  unfold Exec.call
  cases profiling : r.self.profiling with
  | false =>
    have lands : ∃ entry, EnteredAt pieces false callee entry ∧
        ComesTo pieces filled target entry := by
      have regular : ∀ entry, Code.Enters pieces callee entry →
          EnteredAt pieces false callee entry := by
        rintro entry ⟨s, p, there, ⟨bytecode, is⟩ | ⟨is, at'⟩⟩
        · exact ⟨s, p, there, .inl ⟨bytecode, entry, is, rfl⟩⟩
        · exact ⟨s, p, there, .inr ⟨is, at'⟩⟩
      rcases settled.leads with enters | far
      · exact ⟨target, regular target enters, .inl rfl⟩
      · obtain ⟨entry, enters, is, _⟩ := h.far_target far
        exact ⟨entry, regular entry enters, .inr ⟨⟨callee, far⟩, is⟩⟩
    obtain ⟨entry, enters, lands⟩ := lands
    refine ⟨target, entry, enters, lands, ?_⟩
    intro Q
    rw [leads_unlessStopped, if_neg quiet, leads_bind, relative, leads_pure, leads_bind,
      leads_self, profiling]
    exact call
  | true =>
    obtain ⟨counting, there, counts⟩ := h.leads_countingEntry (E := E) own settled.leads
    refine ⟨counting, counting, there, .inl rfl, ?_⟩
    intro Q
    rw [leads_unlessStopped, if_neg quiet, leads_bind, relative, leads_pure, leads_bind,
      leads_self, profiling]
    show Leads (Exec.countingEntry target >>= _) r Q E ↔ _
    rw [leads_bind, counts]
    exact call

/-- A far jump leads on. -/
theorem step_far (far : FarJump pieces callee r.act.pc)
    (is : filled (r.act.pc + Chunk.firstOperand) = some entry) :
    Exec.step r = (.ok (.go entry), r) := by
  obtain ⟨_, _, is', whole, _⟩ := h.far_target far
  rw [is] at is'
  cases is'
  rw [h.step far.there (by intro _ _ _ _ is; cases is) own.code rfl]
  have at' :
      (Line.at { instr := .jumpFar unlinked } r.act.pc filled).narrowed = .jumpFar entry := by
    show Instr.jumpFar (word ((filled (r.act.pc + Chunk.firstOperand)).getD unlinked)) = _
    rw [is]
    exact congrArg Instr.jumpFar whole
  rw [at']
  rfl

/-- The trap that a shared stub raises. -/
def stubTrap : StubKind → Option Trap
  | .outOfBounds => some .memoryOutOfBounds
  | .interrupt => some .interrupted
  | .stackOverflow => some .stackOverflow
  | .throw => none

/-- A stub traps on behalf of the instruction that went there. -/
theorem step_stub {kind : StubKind} {t : Trap} (raises : stubTrap kind = some t)
    (at' : r.act.pc = m.stubs.get kind) :
    Exec.step r = (.error (.trap (m.trapInfo t r.act.faultPc)), r) := by
  have there : (r.act.pc, ⟨.inline, Chunk.trapLines t⟩) ∈ sited 0 pieces := by
    rw [at']
    cases kind with
    | outOfBounds => cases raises; exact h.shared.outOfBounds
    | interrupt => cases raises; exact h.shared.interrupt
    | stackOverflow => cases raises; exact h.shared.stackOverflow
    | throw => cases raises
  rw [h.step (first_line there rfl) (by intro _ _ _ _ is; cases is) own.code rfl, ← own.module]
  rfl

end Module.Shows
end Wasmill
