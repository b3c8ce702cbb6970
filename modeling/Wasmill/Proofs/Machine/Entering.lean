import Wasmill.Proofs.Generator.Calls
import Wasmill.Proofs.Machine.Simulating

/-! Lowered functions mean the same.

Code enters a function with its arguments in the first slots of a new frame. The prologue makes room
for the other values, or traps where calls are nested too deep; from there on the machine keeps in
step with the function. -/
namespace Wasmill
open Code Steps List

/-- At a prologue code traps if calls are nested too deep, and goes on with room for its values
otherwise. -/
theorem Module.Shows.prologue {m : Module} {code : ByteArray} {reach : Nat} {pieces : List Piece}
    {filled : Nat → Option Nat}
    (h : m.Shows code reach pieces filled) {w : World} {a : Activation} (below : List Task)
    (has : w.Has a.inst m code)
    {line : Line} {size old : Nat} (mem : (a.pc, line) ∈ located 0 (linesOf pieces))
    (is : line.instr = .prologue size old) :
    (a.maxDepth < a.frames.size → Machine.Traps below w a (m.trapInfo .stackOverflow a.pc)) ∧
    (a.frames.size ≤ a.maxDepth → Machine.step w (.code a) below =
      .running w (.code
        { a with slots := Exec.zeroSlots a.slots (a.base + word size), pc := a.pc + 9 }) below) := by
  cases line
  cases is
  have stub : word ((filled (a.pc + 5)).getD old) = m.stubs.stackOverflow := by
    rw [h.linked.stubs _ _ 5 .stackOverflow mem rfl]
    exact (h.linkable_of_lt (h.stub_lt .stackOverflow)).1
  have run : ∀ Q E, Leads Exec.step ⟨w, a⟩ Q E ↔ if a.frames.size > a.maxDepth then
      Q (.go m.stubs.stackOverflow) ⟨w, { a with faultPc := a.pc }⟩
      else Q (.go (a.pc + 9)) ⟨w,
        { a with slots := Exec.zeroSlots a.slots (a.base + word size) }⟩ := by
    intro Q E
    rw [h.leads_step mem (by intro _ _ _ _ is; cases is) has.within.code rfl]
    show Leads (Exec.instr a.pc (a.pc + 9)
      (.prologue (word size) (word ((filled (a.pc + 5)).getD old)))) ⟨w, a⟩ Q E ↔ _
    rw [stub]
    simp only [Exec.instr, leads_bind, Exec.leads_test, leads_ite, Exec.leads_fault,
      Exec.leads_onAct, leads_pure, decide_eq_true_eq]
  refine ⟨fun deep => ?_, fun room => ?_⟩
  · obtain ⟨_, _, stepped, rfl, rfl⟩ :=
      ((run (fun n t => n = .go m.stubs.stackOverflow ∧ t = ⟨w, { a with faultPc := a.pc }⟩)
      (fun _ _ => False)).2 (by rw [if_pos deep]; exact ⟨rfl, rfl⟩)).exists_ok
    refine .inr ⟨w, { a with pc := m.stubs.stackOverflow, faultPc := a.pc },
      ⟨rfl, Nat.le_refl _, fun _ _ _ is => is⟩, .inl rfl,
      Machine.codeStep_go stepped, ?_⟩
    exact Machine.codeStep_error (h.step_stub
      (World.Has.within (a := { a with pc := m.stubs.stackOverflow, faultPc := a.pc }) has)
      (show Shows.stubTrap .stackOverflow = some .stackOverflow from rfl) rfl)
  · obtain ⟨_, _, stepped, rfl, rfl⟩ := ((run (fun n t => n = .go (a.pc + 9) ∧
      t = ⟨w, { a with slots := Exec.zeroSlots a.slots (a.base + word size) }⟩) (fun _ _ =>
        False)).2
      (by rw [if_neg (Nat.not_lt.2 room)]; exact ⟨rfl, rfl⟩)).exists_ok
    exact Machine.codeStep_go stepped

namespace Module.Bears
variable {m : Module} {code : ByteArray} {reach : Nat} {pieces : List Piece}
  {filled : Nat → Option Nat} {func : Nat}
  {f : Ssa.Function} {start : Nat} {place : Nat → Nat} {w w' : World} {a a' : Activation}
  {s s' : Ssa.State} {below : List Task}
  {args : List Slot}

variable (h : m.Bears code reach pieces filled func f start place)
include h

/-- The line of the prologue lies at the regular entry. -/
theorem prologue_line : ∃ p, (start, p) ∈ sited 0 pieces ∧
    p.func? = some func ∧ (start + profilingEntrySize,
      { instr := .prologue f.values.size unlinked, traps := some f.srcloc }) ∈
      located start p.lines := by
  obtain ⟨bytecode, lines, there, lowered⟩ := h.body
  obtain ⟨rest, rfl⟩ := lowered.head
  exact ⟨_, there, rfl, mem_cons_of_mem _ mem_cons_self⟩

/-- A function is entered: it traps if calls are nested too deep, and is at its start otherwise. -/
theorem enter (below : List Task) (has : w.Has a.inst m code)
    (framed : a.Framed) (at' : a.pc = start + profilingEntrySize)
    (given : ∀ v x, args[v]? = some x → a.slot? v = some x) :
    (a.maxDepth < a.frames.size →
      Machine.Traps below w a
        { trap := .stackOverflow, func := some func, offset := some f.srcloc }) ∧
    (a.frames.size ≤ a.maxDepth → ∃ a',
      Machine.step w (.code a) below = .running w (.code a') below ∧ a.Beside a' ∧
      m.Stands code f place start w a' (Ssa.Function.start args)) := by
  obtain ⟨p, there, is, inside⟩ := h.prologue_line
  rw [← at'] at inside
  have ⟨deep, room⟩ := h.shows.prologue below has (located_of_sited there inside) rfl
  rw [h.shows.lists.trapInfo there inside, is] at deep
  rw [word_of_lt h.small] at room
  have more := a.append_beside (Array.replicate (a.base + f.values.size - a.slots.size) 0)
  refine ⟨deep, fun le => ⟨_, room le, more.at _, has,
    ⟨h.well.entry, Nat.zero_le _, ?_, ?_, ?_⟩, framed⟩⟩
  · obtain ⟨bytecode, lines, _, lowered⟩ := h.body
    rw [at']
    show start + extent (Lower.head func f) = start + place 0 + 0
    rw [lowered.first (Nat.ne_of_gt h.well.entry), Nat.add_zero]
  · intro v x is
    have held := given v x is
    show (a.slots ++ _)[a.base + v]? = some x
    rw [Array.getElem?_append_left (Array.getElem?_eq_some_iff.1 held).1]
    exact held
  · show a.base + f.values.size ≤ (a.slots ++ _).size
    rw [Array.size_append, Array.size_replicate]
    omega

/-- However far the function goes, the machine is where it is. -/
theorem runsWith (well : f.WellFormed) (st : m.Stands code f place start w a s)
    (run : Machine.RunsWith f below w a s w' a' s') :
    m.Stands code f place start w' a' s' ∧ a.Beside a' := by
  induction run with
  | refl => exact ⟨st, .refl a⟩
  | step first goes ih =>
    obtain ⟨now, beside⟩ := h.stepsWith ih.1 well goes
    exact ⟨now, ih.2.trans beside⟩

end Module.Bears

/-- The lines that a well-formed function is lowered to keep its meaning, wherever they lie in
linked code. Entered with its arguments in the first slots of a frame, the code traps if calls are
nested too deep. Otherwise it comes to the start of the function. From there the machine keeps in
step: as far as the function goes, the slot of each value holds it, the frames below are as they
were, and the machine does what comes next for the function. -/
theorem Code.Chunk.ofFunction_simulates {func : Nat} {f : Ssa.Function} {c : Chunk}
    (well : f.WellFormed)
    (lowered : Chunk.ofFunction func f = .ok c) :
    ∃ lines place, Lower.lines func f = .ok lines ∧
      c = { Chunk.ofLines lines with entry := profilingEntrySize } ∧
      ∀ (m : Module) code reach pieces filled start bytecode, m.Shows code reach pieces filled →
        (start, ⟨.function func bytecode (start + profilingEntrySize), lines⟩) ∈ sited 0 pieces →
      ∀ (w : World) (a : Activation) args below, w.Has a.inst m code → a.Framed →
        a.pc = start + profilingEntrySize →
        (∀ v x, args[v]? = some x → a.slot? v = some x) →
        (a.maxDepth < a.frames.size →
          Machine.Traps below w a
            { trap := .stackOverflow, func := some func, offset := some f.srcloc }) ∧
        (a.frames.size ≤ a.maxDepth → ∃ a₀,
          Machine.step w (.code a) below = .running w (.code a₀) below ∧
          ∀ w' a' s, Machine.RunsWith f below w a₀ (Ssa.Function.start args) w' a' s →
            Lower.At f place start s a' ∧ a.Beside a' ∧
              Machine.Shown pieces func below w' a' (f.next s)) := by
  obtain ⟨small, lines, made, is⟩ := Lower.ofFunction_ok lowered
  obtain ⟨place, placed⟩ := Lower.lines_ok made
  refine ⟨lines, place, made, is, ?_⟩
  intro m code reach pieces filled start bytecode shows there w a args below has framed at' given
  have h : m.Bears code reach pieces filled func f start place :=
    ⟨shows, ⟨bytecode, lines, there, placed⟩, small, well.toDefinite⟩
  obtain ⟨deep, room⟩ := h.enter below has framed at' given
  refine ⟨deep, fun le => ?_⟩
  obtain ⟨a₀, first, beside, st⟩ := room le
  refine ⟨a₀, first, fun w' a' s run => ?_⟩
  obtain ⟨now, further⟩ := h.runsWith well st run
  exact ⟨now.at', beside.trans further, h.shown now below⟩

namespace Generator

/-- A function whose loop swaps its two parameters until the first is zero. -/
def swapping : List Request :=
  [.declare (.sig ⟨[.i32, .i32], some .i32⟩), .declare (.func 0),
    .declare (.export "f" (.function 0)),
    .define 0 ⟨#[0x00, 0x03, 0x40, 0x20, 0x00, 0x20, 0x01, 0x21, 0x00, 0x21, 0x01, 0x20, 0x00, 0x0d,
      0x00, 0x0b, 0x20, 0x01, 0x0b]⟩ 0]

theorem finish_swapping :
    ∃ m g code reach pieces filled f c lines, Gen.finish ((new {}).after swapping) = (.ok m, g) ∧
    m.Shows code reach pieces filled ∧ f.WellFormed ∧ Chunk.ofFunction 0 f = .ok c ∧
      Lower.lines 0 f = .ok lines ∧
    (0, ⟨.function 0 0 (0 + profilingEntrySize), lines⟩) ∈ sited 0 pieces := by
  have clean : Along Request.Clean (new {}) swapping := (harmless_of_served (by decide +kernel)).1
  have shown : (match Gen.finish ((new {}).after swapping) with
      | (.ok m, g) =>
        decide (m.ranges.toList[0]? = some ⟨.function 0 0 profilingEntrySize, 0, 99⟩) &&
          g.log.toList.all fun e => decide e.2.WellFormed && (Chunk.ofFunction e.1 e.2).isOk
      | _ => false) = true := by decide +kernel
  rcases is : Gen.finish ((new {}).after swapping) with ⟨e | m, g⟩
  · rw [is] at shown
    cases shown
  · simp only [is, Bool.and_eq_true, decide_eq_true_eq, all_eq_true] at shown
    obtain ⟨first, all⟩ := shown
    obtain ⟨_, _, orderly⟩ := (orderly_new {}).after clean
    obtain ⟨pieces, filled, stubs, _, done, rfl, _⟩ := orderly.finish.ok is
    obtain ⟨code, filled', _, shows⟩ := done.shows
    rw [shows.ranges, getElem?_map] at first
    obtain ⟨⟨s, p⟩, there, range⟩ := Option.map_eq_some_iff.1 first
    have mem := mem_of_getElem? there
    obtain ⟨kind, lines⟩ := p
    cases show kind = _ from congrArg Range.kind range
    cases show s = 0 from congrArg Range.start range
    rcases done.kept.origin _ _ mem with ⟨logged, small, made⟩
    obtain ⟨well, lowered⟩ := all _ (Array.mem_toList_iff.2 logged)
    cases compiled : Chunk.ofFunction 0 _ with
    | error e => rw [compiled] at lowered; cases lowered
    | ok c =>
      exact ⟨_, g, code, _, pieces, filled', _, c, lines, rfl, shows, well, compiled, made, mem⟩

/-- The loop is entered with two arguments; what an instance has but its module and code does not
matter. -/
theorem ofFunction_simulates_swapping :
    ∃ f c m code pieces place w a a₀, f.WellFormed ∧ Chunk.ofFunction 0 f = .ok c ∧
    (∃ reach filled, m.Shows code reach pieces filled) ∧ w.Has a.inst m code ∧ a.slot? 0 = some 7 ∧
      a.slot? 1 = some 0 ∧
    Machine.step w (.code a) [] = .running w (.code a₀) [] ∧
    ∀ w' a' s, Machine.RunsWith f [] w a₀ (Ssa.Function.start [7, 0]) w' a' s →
      Lower.At f place 0 s a' ∧ a.Beside a' ∧ Machine.Shown pieces 0 [] w' a' (f.next s) := by
  obtain ⟨m, g, code, reach, pieces, filled, f, c, lines, _, shows, well, compiled, made, there⟩ :=
    finish_swapping
  obtain ⟨lines', place, made', _, simulates⟩ := Code.Chunk.ofFunction_simulates well compiled
  cases made.symm.trans made'
  let w : World := { instances := #[{ (default : Instance) with module := m, code }] }
  let a : Activation :=
    { inst := 0, slots := #[7, 0], frames := #[⟨0, 0, noSlot, none⟩], pc := profilingEntrySize,
      maxDepth := 1, signals := false,
      want := some .i32, first := 0 }
  have has : w.Has a.inst m code := ⟨_, rfl, rfl, rfl⟩
  have given : ∀ v x, [(7 : Slot), 0][v]? = some x → a.slot? v = some x := by
    intro v x is
    show #[(7 : Slot), 0][0 + v]? = some x
    rw [Nat.zero_add, getElem?_toArray]
    exact is
  obtain ⟨a₀, first, run⟩ :=
    (simulates m code reach pieces filled 0 0 shows there w a [7, 0] [] has rfl rfl given).2
      (Nat.le_refl _)
  exact ⟨f, c, m, code, pieces, place, w, a, a₀, well, compiled, ⟨reach, filled, shows⟩, has, rfl,
    rfl, first, run⟩

end Generator
end Wasmill
