import Wasmill.Proofs.Generator.Relocating
import Wasmill.Proofs.Machine.Calling

/-! Traps are blamed on the operators that they come from.

An instruction that traps raises the trap at once, or it is noted as the one to blame and a stub
raises the trap for it. Either way the place of the instruction is looked up in the tables of the
module. -/
namespace Wasmill
open Code Steps List

/-- Whether a trap can be blamed on an instruction, other than one that reports for another. -/
def Code.Instr.blamable (i : Instr) : Bool := i.traps || i.trapStub?.isSome

theorem Code.Instr.blamable_narrowed (i : Instr) (value : Nat → Option Nat) :
    (i.fill value).narrowed.blamable = i.blamable := by
  cases i <;> rfl

theorem Code.Instr.overflows_narrowed (i : Instr) (value : Nat → Option Nat) :
    (i.fill value).narrowed.overflows = i.overflows := by
  cases i <;> rfl

theorem Code.Instr.relays_narrowed (i : Instr) (value : Nat → Option Nat) :
    (i.fill value).narrowed.relays = i.relays := by
  cases i <;> rfl

/-- Every trap that is blamed on the instruction at which code runs is like that, whatever was noted
before: the one it raises at once and, where it is noted as the one to blame, the one that comes
next. -/
def Exec.Blames (r : Running) (P : TrapInfo → Prop) : Prop :=
  ∀ noted, Leads Exec.step (r.withAct { r.act with faultPc := noted })
    (fun next t => t.act.faultPc = noted ∨ ∃ pc info, next = .go pc ∧ P info ∧
      Exec.step (t.withAct { t.act with pc }) = (.error (.trap info), t.withAct { t.act with pc }))
    (fun e _ => ∀ info, e.trap? = some info → P info)

theorem Exec.Blames.imp {r : Running} {P Q : TrapInfo → Prop} (h : Blames r P)
    (weaker : ∀ info, P info → Q info) :
    Blames r Q := fun noted =>
  (h noted).imp (fun _ _ => Or.imp_right fun ⟨pc, info, goes, is, next⟩ =>
    ⟨pc, info, goes, weaker info is, next⟩)
    fun _ _ reports info is => weaker info (reports info is)

namespace Module.Shows
variable {m : Module} {code : ByteArray} {reach : Nat} {pieces : List Piece}
  {filled : Nat → Option Nat} {r : Running}

/-- The stub that an instruction goes to raises a trap. -/
theorem stub_raises (h : m.Shows code reach pieces filled) {kind : RangeKind} {i : Instr}
    (binds : m.Resolves kind i) {stub : Nat}
    (is : i.narrowed.trapStub? = some stub) :
    ∃ kind t, stubTrap kind = some t ∧ stub = m.stubs.get kind ∧
      (t = .stackOverflow → i.narrowed.overflows = true) := by
  have whole : ∀ kind, word (m.stubs.get kind) = m.stubs.get kind :=
    fun kind => (h.linkable_of_lt (h.stub_lt kind)).1
  cases i with
  | prologue size old =>
    cases is
    cases binds
    exact ⟨.stackOverflow, _, rfl, whole .stackOverflow, fun _ => rfl⟩
  | checkInterrupt symbol old =>
    cases is
    obtain ⟨-, rfl⟩ := binds
    exact ⟨.interrupt, _, rfl, whole .interrupt, nofun⟩
  | load kind dst addr offset old | store kind addr src offset old =>
    cases is
    cases binds
    exact ⟨.outOfBounds, _, rfl, whole .outOfBounds, nofun⟩
  | _ => cases is

/-- The tables have what the line tells. -/
theorem blames (h : m.Shows code reach pieces filled) (own : r.Within m code) {s : Nat} {p : Piece}
    {line : Line}
    (there : (s, p) ∈ sited 0 pieces) (inside : (r.act.pc, line) ∈ located s p.lines)
    (full : line.Full)
    (binds : m.Resolves p.kind (line.at r.act.pc filled)) (plain : line.instr.relays = false) :
    Exec.Blames r fun info =>
      info = { trap := info.trap, func := p.func?, offset := line.traps <|> Lists.body? p } ∧
      (line.instr.blamable = true ∨ info.trap = .interrupted ∧ r.act.signals = true) ∧
      (info.trap = .stackOverflow → line.instr.overflows = true) := by
  intro noted
  have own : (r.withAct { r.act with faultPc := noted }).Within m code := ⟨own.module, own.code⟩
  have info := h.lists.trapInfo there inside
  have can := line.instr.blamable_narrowed fun k => filled (r.act.pc + k)
  rw [← line.instr.overflows_narrowed fun k => filled (r.act.pc + k)]
  refine (h.leads_step (located_of_sited there inside) full own.code rfl).2 ?_
  refine (Exec.behaves_instr _ _ _ _).imp (fun next t goes => ?_) fun e t fails reported is => ?_
  · rcases goes.blames with same | faults
    · exact .inl same
    obtain ⟨kind, t', raises, is, blamed⟩ : ∃ kind t', stubTrap kind = some t' ∧
      next = .go (m.stubs.get kind) ∧
        (line.instr.blamable = true ∨ t' = .interrupted ∧ r.act.signals = true) ∧
        (t' = .stackOverflow → (line.at r.act.pc filled).narrowed.overflows = true) := by
      rcases faults.stub with ⟨stub, has, is⟩ | ⟨signals, is⟩
      · obtain ⟨kind, t', raises, rfl, deep⟩ := h.stub_raises binds has
        refine ⟨kind, t', raises, is, .inl ?_, deep⟩
        rw [← can]
        exact Bool.or_eq_true_iff.2 (.inr (Option.isSome_iff_exists.2 ⟨_, has⟩))
      · rw [own.module] at is
        exact ⟨.interrupt, _, rfl, is, .inr ⟨rfl, signals⟩, nofun⟩
    have stays : (t.withAct { t.act with pc := m.stubs.get kind }).Within m code :=
      ⟨faults.module.trans own.module, faults.code.trans own.code⟩
    refine .inr ⟨m.stubs.get kind, m.trapInfo t' r.act.pc, is, ?_, ?_⟩
    · rw [info]
      exact ⟨rfl, blamed⟩
    · rw [h.step_stub stays raises rfl, ← faults.pc]
  · rcases fails.blames reported is with relays | ⟨traps, t', deep, rfl⟩
    · rw [show (line.at r.act.pc filled).narrowed.relays = _ from line.instr.relays_narrowed _,
        plain] at relays
      cases relays
    · rw [own.module, info]
      refine ⟨rfl, .inl ?_, deep⟩
      rw [← can]
      exact Bool.or_eq_true_iff.2 (.inl traps)

end Module.Shows

namespace Code.Lower
open Ssa
variable {func : Nat} {f : Function} {lines : List Line} {line : Line}

/-- The line that an instruction of a function is lowered to: a step of a block, or how it is left.
-/
def LowersTo (f : Function) (b : Nat) (line : Line) : Option Nat → Prop
  | some k => ∃ s, (f.block b).steps[k]? = some s ∧ line = step f s
  | none => ∃ l rel, (f.block b).leave = some l ∧ exit f rel l = .ok line

/-- No line of a function reports for another one, and every line that a trap can be blamed on tells
where it comes from. -/
theorem lines_blamable (lowered : Lower.lines func f = .ok lines)
    (left : ∀ b < f.blocks.size, (f.block b).leave ≠ none)
    (mem : line ∈ lines) :
    line.instr.relays = false ∧ (line.instr.blamable = true → ∃ loc, line.traps = some loc ∧
      ((∃ b k, LowersTo f b line k ∧ (f.block b).srclocAt k = some loc) ∨ loc = f.srcloc ∧
        line ∈ head func f)) := by
  obtain ⟨place, lowering⟩ := lines_ok lowered
  obtain ⟨o, there⟩ : ∃ o, (o, line) ∈ located 0 lines := located_of_mem mem
  rcases lowering.source o line there with inside | ⟨b, block, known, inside⟩
  · have mem := mem_of_located inside
    have both := mem
    simp only [head, mem_cons, not_mem_nil, or_false] at both
    rcases both with rfl | rfl
    · exact ⟨rfl, by rintro ⟨⟩⟩
    · exact ⟨rfl, fun _ => ⟨f.srcloc, rfl, .inr ⟨rfl, mem⟩⟩⟩
  · have here : f.block b = block := by simp [Function.block, Array.getD_eq_getD_getElem?, known]
    cases inside with
    | @step k s at' =>
      refine ⟨?_, fun can => ⟨s.srcloc, ?_, .inl ⟨b, some k, ⟨s, here ▸ at', rfl⟩, ?_⟩⟩⟩
      · cases s with | mk inst result srcloc => cases inst <;> rfl
      · cases s with
        | mk inst result srcloc =>
          cases inst <;> first | rfl | cases can | exact if_pos ((Bool.or_false _).symm.trans can)
      · rw [here]
        exact Option.map_eq_some_iff.2 ⟨s, at', rfl⟩
    | exit exits =>
      have ends := blockExit_ok exits
      generalize is : block.leave = leave at ends
      cases ends with
      | unfilled => exact absurd (here ▸ is) (left b (Array.getElem?_eq_some_iff.1 known).1)
      | trap =>
        simp only [blockExit, is] at exits
        refine ⟨rfl, fun _ => ⟨_, rfl, .inl ⟨b, none, ⟨_, _, here ▸ is, exits⟩, ?_⟩⟩⟩
        rw [here, Block.srclocAt, is]
        rfl
      | _ => exact ⟨rfl, by rintro ⟨⟩⟩

end Code.Lower

/-- A line of the function comes from the operator at a module offset, or from the start of the
body: the prologue, and what precedes the code. -/
def CompileSlot.Locates (slot : CompileSlot) (func : Nat) (f : Ssa.Function) (line : Line)
    (offset : Nat) : Prop :=
  let body := Wasm.Body.ofBytes slot.body slot.offset
  ∃ sig, slot.env.sigOf? func = some sig ∧
    ((∃ b k, Lower.LowersTo f b line k ∧ f.ComesFrom slot.env sig body b k offset) ∨
    offset = slot.offset ∧ (line ∈ Lower.head func f ∨ ∃ b k,
      Lower.LowersTo f b line k ∧ f.Precedes slot.env sig body b k))

theorem CompileSlot.CompilesTo.locates {slot : CompileSlot} {func : Nat} {f : Ssa.Function}
    (yields : slot.CompilesTo func f)
    {lines : List Line} (lowered : Lower.lines func f = .ok lines) {line : Line}
    (mem : line ∈ lines) :
    line.instr.relays = false ∧ (line.instr.blamable = true →
      ∃ offset, slot.Locates func f line offset ∧ line.traps = some (offset % UInt32.size)) := by
  obtain ⟨sig, known, yields⟩ := yields
  obtain ⟨-, start, left⟩ := Ssa.Function.ofBody_proper yields
  obtain ⟨plain, blamed⟩ := Lower.lines_blamable lowered left mem
  refine ⟨plain, fun can => ?_⟩
  obtain ⟨loc, traps, ⟨b, k, gives, is⟩ | ⟨rfl, first⟩⟩ := blamed can
  · rcases Ssa.Function.ofBody_gave yields is with ⟨offset, comes, rfl⟩ | ⟨precedes, rfl⟩
    · exact ⟨offset, ⟨sig, known, .inl ⟨b, k, gives, comes⟩⟩, traps⟩
    · exact ⟨slot.offset, ⟨sig, known, .inr ⟨rfl, .inr ⟨b, k, gives, precedes⟩⟩⟩, traps⟩
  · rw [start] at traps
    exact ⟨slot.offset, ⟨sig, known, .inr ⟨rfl, .inl first⟩⟩, traps⟩

namespace Generator
variable {g : Generator}

/-- Unless a request failed before and did harm, a trap in finished code names the function that it
comes from, and the operator, by its module offset in 32 bits. Requests to stop that code does not
look for itself are noticed anywhere. Traps in exits name nothing. -/
theorem finish_blames {config : Config} {history : List Request} {m : Module}
    (clean : Along Request.Clean (new config) history)
    (finished : Gen.finish ((new config).after history) = (.ok m, g)) :
    ∃ code pieces, m.Composed g.log code pieces ∧ ∀ s p, (s, p) ∈ sited 0 pieces →
      (∀ func bytecode entry, p.kind = .function func bytecode entry →
        ∃ slot f, CompileSlot.CompilesTo slot func f ∧ Lower.lines func f = .ok p.lines ∧
          ∀ (r : Running) line, r.Within m code → (r.act.pc, line) ∈ located s p.lines →
            Exec.Blames r fun info => info.func = some func ∧
              ((∃ offset, slot.Locates func f line offset ∧
                info.offset = some (offset % UInt32.size)) ∨
                info.trap = .interrupted ∧ r.act.signals = true)) ∧
      (∀ index, p.kind = .interpExit index ∨ p.kind = .jitExit index →
        ∀ (r : Running) line, r.Within m code → (r.act.pc, line) ∈ located s p.lines →
          Exec.Blames r fun info => info.func = none ∧ info.offset = none) := by
  obtain ⟨logged, pieces, filled, stubs, done, rfl, code, filled', composed, shows⟩ :=
    finish_composed clean finished
  refine ⟨code, pieces, composed, fun s p there => ⟨?_, ?_⟩⟩
  · intro func bytecode entry is
    cases composed.origin s p there with
    | @function _ _ f lines known small lowered =>
      cases is
      obtain ⟨slot, yields⟩ := logged.log _ _ known
      refine ⟨slot, f, yields, lowered, fun r line own inside => ?_⟩
      obtain ⟨plain, blamed⟩ := yields.locates lowered (mem_of_located inside)
      refine (shows.blames own there inside (done.kept.full logged (located_of_sited there inside))
        (done.resolves shows.linked there inside) plain).imp ?_
      rintro info ⟨is, can | signals, -⟩
      · obtain ⟨offset, locates, traps⟩ := blamed can
        rw [is, traps]
        exact ⟨rfl, .inl ⟨offset, locates, rfl⟩⟩
      · rw [is]
        exact ⟨rfl, .inr signals⟩
    | _ => cases is
  · intro index is r line own inside
    have mem := mem_of_located inside
    have exit : line.instr.relays = false ∧ line.traps = none ∧ p.func? = none ∧
        Module.Lists.body? p = none := by
      cases composed.origin s p there with
      | interpExit | jitExit =>
        simp only [Chunk.interpLines, Chunk.jitLines, Chunk.exitLines, mem_cons, not_mem_nil,
          or_false] at mem
        obtain rfl | rfl | rfl := mem <;> exact ⟨rfl, rfl, rfl, rfl⟩
      | _ => rcases is with is | is <;> cases is
    refine (shows.blames own there inside (done.kept.full logged (located_of_sited there inside))
      (done.resolves shows.linked there inside) exit.1).imp ?_
    rintro info ⟨is, -⟩
    rw [is, exit.2.1, exit.2.2.1, exit.2.2.2]
    exact ⟨rfl, rfl⟩

/-- A function that traps, with its body beyond the first four gigabytes of the module. -/
def faraway : List Request :=
  [.declare (.sig ⟨[], none⟩), .declare (.func 0), .define 0 ⟨#[0x00, 0x00, 0x0b]⟩ 4294967296]

theorem finish_blames_faraway :
    ∃ m g code pieces, Gen.finish ((new {}).after faraway) = (.ok m, g) ∧
    m.Composed g.log code pieces ∧ ∃ s p bytecode entry slot f, (s, p) ∈ sited 0 pieces ∧
      p.kind = .function 0 bytecode entry ∧
      CompileSlot.CompilesTo slot 0 f ∧ ∀ (r : Running) line, r.Within m code →
        (r.act.pc, line) ∈ located s p.lines →
        Exec.Blames r fun info => info.func = some 0 ∧
          ((∃ offset, slot.Locates 0 f line offset ∧ info.offset = some (offset % UInt32.size)) ∨
            info.trap = .interrupted ∧ r.act.signals = true) := by
  have clean : Along Request.Clean (new {}) faraway := (harmless_of_served (by decide +kernel)).1
  obtain ⟨m, g, is, shown⟩ := finished_of {} faraway
    (fun m => m.ranges.toList.any fun r => r.func? == some 0) (by decide +kernel)
  obtain ⟨code, pieces, composed, blames⟩ := finish_blames clean is
  obtain ⟨range, mem, has⟩ := any_eq_true.1 shown
  rw [composed.ranges] at mem
  obtain ⟨⟨s, p⟩, there, rfl⟩ := mem_map.1 mem
  cases kind : p.kind with
  | function func bytecode entry =>
    simp only [Piece.range, Range.func?, kind, beq_iff_eq, Option.some.injEq] at has
    obtain rfl := has
    obtain ⟨slot, f, yields, -, all⟩ := (blames s p there).1 0 bytecode entry kind
    exact ⟨m, g, code, pieces, is, composed, s, p, bytecode, entry, slot, f, there, kind,
      yields, all⟩
  | _ => simp [Piece.range, Range.func?, kind] at has

/-- The operator at 4294967297, which is lowered to the line at 23, is blamed under another offset.
-/
theorem misplaced_faraway : ∃ m g, Gen.finish ((new {}).after faraway) = (.ok m, g) ∧
    m.trapInfo .unreachableCodeReached 23 =
      { trap := .unreachableCodeReached, func := some 0, offset := some 1 } := by
  obtain ⟨m, g, is, shown⟩ := finished_of {} faraway
    (fun m => decide (m.trapInfo .unreachableCodeReached 23 =
      { trap := .unreachableCodeReached, func := some 0, offset := some 1 })) (by decide +kernel)
  exact ⟨m, g, is, of_decide_eq_true shown⟩

end Generator
end Wasmill
