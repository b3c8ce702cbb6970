import Wasmill.Proofs.Code.Lowering
import Wasmill.Proofs.Ssa.Proper

/-! The code of a function reads back.

Reading a function's code from its first byte, with the operands in the order in which the machine
takes them, meets the lines it was made of, one after another, up to its end. What is known about
lines is known for the offsets at which they are met, and branches lead to the first lines of
blocks. -/
namespace Wasmill

namespace Ssa

/-- The immediates of an instruction have the widths that code keeps. -/
def Inst.Narrow : Inst → Prop
  | .load _ _ offset | .store _ _ _ offset => offset < UInt32.size
  | .globalGet _ place | .globalSet _ place _ => place < UInt32.size
  | .extractLane _ _ lane _ | .replaceLane _ lane _ _ => lane < 256
  | .shuffle _ _ lanes => lanes.length = 16 ∧ ∀ lane ∈ lanes, lane < 256
  | .callImport _ record _ => record < UInt32.size
  | .callIndirect _ table token _ _ => table < UInt32.size ∧ token < UInt32.size
  | _ => True

instance (inst : Inst) : Decidable inst.Narrow :=
  match inst with
  | .load _ _ _ | .store _ _ _ _ | .globalGet _ _ | .globalSet _ _ _ | .extractLane _ _ _ _
  | .replaceLane _ _ _ _
  | .callImport _ _ _ => inferInstanceAs (Decidable (_ < _))
  | .shuffle _ _ _ | .callIndirect _ _ _ _ _ => inferInstanceAs (Decidable (_ ∧ _))
  | .const _ | .unary _ _ | .binary _ _ _ | .convert _ _ | .select _ _ _ | .memorySize
  | .memoryGrow _ | .splat _ _ | .call _ _
  | .interruptCheck => inferInstanceAs (Decidable True)

/-- The values that a block names. -/
def Block.named (b : Block) : List Value :=
  b.params.toList ++ (b.steps.toList.flatMap fun s => s.inst.operands ++ s.result.toList) ++
    b.leave.toList.flatMap fun l => l.exit.operands ++ l.exit.edges.flatMap fun e =>
      e.toList.flatMap (·.args.toList)

/-- All numbers in a function have the widths that code keeps. -/
structure Function.Narrow (f : Function) : Prop where
  named : ∀ b ∈ f.blocks.toList, ∀ v ∈ b.named, f.resolve v < UInt32.size
  steps : ∀ b ∈ f.blocks.toList, ∀ s ∈ b.steps.toList, s.inst.Narrow

end Ssa

namespace Code
open Ssa List
variable {i : Instr} {code : ByteArray} {lines : List Line} {filled : Nat → Option Nat}

/-! ### Whole instructions -/

/-- Reads an instruction in the order of the machine, linked or not, and all destinations of a
branch table. -/
def Fetch.whole (pc : Nat) : Fetch Instr := do
  match ← operands u32 pc (← opcode) with
  | .instr i => return i
  | .table index =>
    let targets ← many dest (← u32)
    return .brTable index targets (← dest)

theorem fetches_whole (pc : Nat) (ready : i.Ready fun _ => True) (short : i.Short) :
    Fetches (Fetch.whole pc) i.encode i.narrowed := by
  have op := fetches_opcode i.opcode
  by_cases table : i.opcode = .brTable
  · obtain ⟨index, targets, default, rfl⟩ := Instr.eq_brTable table
    obtain ⟨few, small, last⟩ := short.table
    have head : Fetches (Fetch.operands Fetch.u32 pc .brTable) (u32 index) (.table (word index)) :=
      inferInstanceAs (Fetches (Fetch.u32 >>= fun n => pure (Fetched.table n)) _ _)
    have tail : Fetches (do
          let targets ← Fetch.many Fetch.dest (← Fetch.u32)
          return Instr.brTable (word index) targets (← Fetch.dest))
        (u32 targets.length ++ (targets.flatMap Dest.encode ++ default.encode))
          (Instr.brTable index targets default).narrowed := by
      have count := fetches_u32 targets.length
      rw [word_of_lt few] at count
      have all := fetches_many targets fun d mem => fetches_dest (small d mem)
      have one := fetches_dest last
      exact inferInstanceAs (Fetches (Fetch.u32 >>= _) _ _)
    rw [Instr.encode, Instr.operands, append_assoc, append_assoc]
    exact op.bind (head.bind tail)
  · have read := fetches_operands (fun n _ => fetches_u32 n) pc ready short table
    have done : Fetches (pure i.narrowed) [] i.narrowed := inferInstance
    rw [Instr.encode, ← append_nil i.operands]
    exact op.bind (read.bind done)

/-- Reading from `pos` on meets these instructions, one after another at their offsets, and ends
with the code. -/
inductive Visits (code : ByteArray) : Nat → List (Nat × Instr) → Prop
  | done : Visits code code.size []
  | next {pos next : Nat} {i : Instr} {rest : List (Nat × Instr)} :
      Fetch.whole pos code pos = .ok (i, next) → Visits code next rest →
      Visits code pos ((pos, i) :: rest)

/-- Code that is made of lines reads back as these lines. -/
theorem Assembles.visits (h : Assembles code lines filled)
    (ready : ∀ line ∈ lines, line.instr.Ready fun _ => True)
    (short : code.size < UInt32.size) :
    Visits code 0 ((located 0 lines).map fun (o, line) => (o, (line.at o filled).narrowed)) := by
  suffices ∀ front back, lines = front ++ back → Visits code (extent front)
      ((located (extent front) back).map fun (o, line) => (o, (line.at o filled).narrowed)) from
        this [] lines rfl
  intro front back is
  induction back generalizing front with
  | nil =>
    rw [show extent front = code.size by rw [h.size, is, append_nil]]
    exact .done
  | cons line back ih =>
    have there : (extent front, line) ∈ located 0 lines := by
      rw [is, located_append, Nat.zero_add]
      exact mem_append_right _ mem_cons_self
    have size : (line.at (extent front) filled).size = line.size := Line.at_size
    have ready : (line.at (extent front) filled).Ready fun _ => True := by
      have := ready line (mem_of_located there)
      unfold Line.at
      cases i : line.instr <;> simp_all [Instr.fill, Instr.Ready]
    have fits : (line.at (extent front) filled).Short := by
      have := (located_le there).2
      rw [Nat.zero_add, ← h.size] at this
      rw [Instr.Short, size]
      omega
    have read := (fetches_whole (extent front) ready fits).read code _ (h.holds there)
    have rest := ih (front ++ [line]) (by simpa using is)
    rw [extent_append, extent_cons, extent_nil, Nat.add_zero] at rest
    exact .next (read.trans (by rw [← size]; rfl)) rest

/-! ### Numbers that fit -/

/-- The destinations of an instruction. -/
def Instr.dests : Instr → List Dest
  | jump d => [d]
  | brIf _ t e => [t, e]
  | brTable _ targets default => targets ++ [default]
  | _ => []

namespace Lower
variable {f : Function} {rel : Nat → Int} {b : Block} {line : Line} {s : Step}

section
variable (operands : ∀ v ∈ s.inst.operands, f.resolve v < UInt32.size)
  (result : ∀ v ∈ s.result, f.resolve v < UInt32.size)
  (narrow : s.inst.Narrow)
include operands result narrow

theorem step_narrowed : (step f s).instr.narrowed = (step f s).instr := by
  have dst : word (Lower.result f s.result) = Lower.result f s.result := by
    cases is : s.result with
    | none => rfl
    | some v => exact word_of_lt (result v is)
  have known : ∀ v ∈ s.inst.operands, word (slot f v) = slot f v :=
    fun v mem => word_of_lt (operands v mem)
  have all : ∀ vs : List Value, (∀ v ∈ vs, v ∈ s.inst.operands) →
      (vs.map (slot f)).map word = vs.map (slot f) := fun vs inside => by
    rw [List.map_map]
    exact map_congr_left fun v mem => known v (inside v mem)
  have back : signedWord (-1) = -1 := by decide
  obtain ⟨inst, result, srcloc⟩ := s
  cases inst with
  | shuffle a b lanes =>
    have same : lanes.map (· % 256) = lanes :=
      (map_congr_left fun lane mem => Nat.mod_eq_of_lt (narrow.2 lane mem)).trans (List.map_id _)
    simp_all [Lower.step, Instr.narrowed, Inst.operands]
  | _ => simp_all [Lower.step, Instr.narrowed, Inst.operands, Inst.Narrow, word_of_lt,
    Nat.mod_eq_of_lt, unlinked]

end

theorem step_ready (f : Function) (narrow : s.inst.Narrow) :
    (step f s).instr.Ready fun _ => True := by
  unfold step
  cases is : s.inst <;> simp_all [Instr.Ready, Inst.Narrow]

/-- Where a block leads. Its end reads back as it is. -/
theorem blockExit_dests (narrow : f.Narrow) (mem : b ∈ f.blocks.toList)
    (is : blockExit f rel b = .ok line) :
    ∃ edges : List Edge, (b.leave.elim [] (·.exit.edges)) = edges.map some ∧
      line.instr.dests = edges.map (destOf f rel) ∧
      line.instr.narrowed = line.instr := by
  have named := narrow.named b mem
  have ends := blockExit_ok is
  generalize left : b.leave = leave at ends
  simp only [Block.named, left, mem_append, mem_flatMap, Option.mem_toList] at named
  have same (e : Edge) (there : some e ∈ leave.elim [] (·.exit.edges)) (near : Near rel e) :
      (destOf f rel e).narrowed = destOf f rel e := by
    have params : ∀ v ∈ (f.block e.block).params.toList, f.resolve v < UInt32.size :=
      fun v mem => by
      rcases Nat.lt_or_ge e.block f.blocks.size with lt | ge
      · exact narrow.named _ (Function.block_mem lt) v (mem_append_left _ (mem_append_left _ mem))
      · rw [Function.block_of_le _ ge] at mem
        cases mem
    have args : ∀ v ∈ e.args.toList, f.resolve v < UInt32.size := fun v mem => by
      cases leave with
      | none => cases there
      | some l => exact named v (.inr ⟨l, rfl, .inr ⟨some e, there, e, rfl, mem⟩⟩)
    have words : (moves f e).map (fun m => (word m.1, word m.2)) = moves f e := by
      refine (map_congr_left fun m mem => ?_).trans (List.map_id _)
      obtain ⟨first, second⟩ := of_mem_zip (mem_filter.1 mem).1
      obtain ⟨p, inside, is⟩ := List.mem_map.1 first
      obtain ⟨a, inside', is'⟩ := List.mem_map.1 second
      obtain ⟨dst, src⟩ := m
      cases is
      cases is'
      exact Prod.ext (word_of_lt (params p inside)) (word_of_lt (args a inside'))
    exact congr (congrArg Dest.mk (signedWord_of_fits near.1 near.2)) words
  have known (l : Leave) (is : leave = some l) (v : Value) (mem : v ∈ l.exit.operands) :
      word (slot f v) = slot f v :=
    word_of_lt (named v (.inr ⟨l, is, .inl mem⟩))
  cases ends with
  | unfilled | trap => exact ⟨[], rfl, rfl, rfl⟩
  | @jump e _ near =>
    exact ⟨[e], rfl, rfl, by rw [Instr.narrowed, same e (by simp [Exit.edges]) near]⟩
  | @branch cond t e _ near near' =>
    exact ⟨[t, e], rfl, rfl, by rw [Instr.narrowed, known _ rfl cond (by simp [Exit.operands]),
      same t (by simp [Exit.edges]) near,
      same e (by simp [Exit.edges]) near']⟩
  | @table index targets edges default _ all near near' =>
    refine ⟨edges ++ [default], by simp [Exit.edges, all], by simp [Instr.dests], ?_⟩
    have each : edges.map (Dest.narrowed ∘ destOf f rel) = edges.map (destOf f rel) :=
      map_congr_left fun e mem => same e (by simp [Exit.edges, all, mem]) (near e mem)
    rw [Instr.narrowed, known _ rfl index (by simp [Exit.operands]),
      same default (by simp [Exit.edges]) near', List.map_map, each]
  | @ret v =>
    refine ⟨[], rfl, rfl, ?_⟩
    cases v with
    | none => rfl
    | some v => rw [Instr.narrowed, result, known _ rfl v (by simp [Exit.operands])]

theorem Lowered.narrowed {func : Nat} {place : Nat → Nat} (h : Lowered func f lines place)
    (narrow : f.Narrow)
    (small : f.values.size < UInt32.size) (named : func < UInt32.size) :
    ∀ line ∈ lines, line.instr.narrowed = line.instr ∧ line.instr.Ready fun _ => True := by
  refine h.forall (fun line mem => ?_) (fun b mem s inside => ?_) fun b mem rel line is => ?_
  · simp only [Lower.head, mem_cons, not_mem_nil, or_false] at mem
    rcases mem with rfl | rfl <;> simp [Instr.narrowed, Instr.Ready, word_of_lt, small,
      named, unlinked]
  · have known := narrow.steps b mem s inside
    have names : ∀ v ∈ s.inst.operands ++ s.result.toList, f.resolve v < UInt32.size :=
      fun v there =>
      narrow.named b mem v
        (mem_append_left _ (mem_append_right _ (mem_flatMap.2 ⟨s, inside, there⟩)))
    exact ⟨step_narrowed (fun v mem => names v (mem_append_left _ mem))
      (fun v is => names v (mem_append_right _ (Option.mem_toList.2 is))) known, step_ready f known⟩
  · obtain ⟨_, -, -, same⟩ := blockExit_dests narrow mem is
    have ends := blockExit_ok is
    generalize b.leave = leave at ends
    exact ⟨same, by cases ends <;> trivial⟩

end Lower

/-- The places of a chunk that are written after it was made. -/
def Chunk.holes (c : Chunk) : List Nat :=
  c.callSites.toList.map (·.patchAt) ++ c.stubRefs.toList.map (·.1) ++ c.symbolRefs.toList.map (·.1)

theorem Chunk.MadeOf.hole {c : Chunk} (made : c.MadeOf lines) (plain : ∀ line ∈ lines, line.Plain)
    {p : Nat} (mem : p ∈ c.holes) :
    ∃ o line h, (o, line) ∈ located 0 lines ∧ h ∈ line.instr.holes ∧ p = o + h := by
  rw [holes, made.callSites, made.stubRefs, made.symbolRefs] at mem
  simp only [mem_append, List.mem_map, mem_filterMap] at mem
  rcases mem with (⟨_, ⟨⟨o, line⟩, there, is⟩, rfl⟩ | ⟨_, ⟨⟨o, line⟩, there, is⟩, rfl⟩) | ⟨_,
    ⟨⟨o, line⟩, there, is⟩, rfl⟩
  all_goals obtain ⟨_, known, rfl⟩ := Option.map_eq_some_iff.1 is
  · have call := (plain line (mem_of_located there)).calls
    rw [known] at call
    exact ⟨o, line, _, there, Instr.mem_holes.2 (.inl ⟨rfl, .inl call.symm⟩), rfl⟩
  · exact ⟨o, line, _, there, Instr.mem_holes.2 (.inr ⟨_, known⟩), rfl⟩
  · have symbol := (plain line (mem_of_located there)).symbol
    rw [known] at symbol
    exact ⟨o, line, _, there, Instr.mem_holes.2 (.inl ⟨rfl, .inr (.inl symbol.symm)⟩), rfl⟩

/-- **Decoding undoes encoding.** Read from its first byte to its end, the code of a function is its
counting entry, its prologue, and block after block the instructions of its steps and that of its
exit. A branch leads to the places of blocks, where their first instructions are met. What is
recorded of the code are the offsets of these instructions and of their operands: what is written to
such a place is read as the operand there. -/
theorem Chunk.ofFunction_reads {func : Nat} {f : Function} {c : Chunk} (narrow : f.Narrow)
    (named : func < UInt32.size)
    (is : Chunk.ofFunction func f = .ok c) (short : c.code.size < UInt32.size) :
    ∃ (chunks : List (List Line)) (place : Nat → Nat),
      let lines := Lower.head func f ++ chunks.flatten
      Visits c.code 0 ((located 0 lines).map fun (o, line) => (o, line.instr)) ∧
      chunks.length = f.blocks.size ∧
      (∀ i b, f.blocks[i]? = some b → place i = extent
        (Lower.head func f ++ (chunks.take i).flatten) ∧
        ∃ last, chunks[i]? = some (b.steps.toList.map (Lower.step f) ++ [last]) ∧
          let o := place i + extent (b.steps.toList.map (Lower.step f))
          Lower.blockExit f (fun target => (place target : Int) - o) b = .ok last ∧
          ∃ edges : List Edge, (b.leave.elim [] (·.exit.edges)) = edges.map some ∧
            last.instr.dests = edges.map (Lower.destOf f fun target => (place target : Int) - o)) ∧
      c.callSites.toList = (located 0 lines).filterMap callSite? ∧
      c.stubRefs.toList = (located 0 lines).filterMap stubRef? ∧
      c.symbolRefs.toList = (located 0 lines).filterMap symbolRef? ∧
      c.trapSites.toList = (located 0 lines).filterMap trapSite? ∧
      ∀ p n, p ∈ c.holes → ∃ code, writeU32 c.code p n = .ok code ∧
        Visits code 0 ((located 0 lines).map fun (o, line) =>
        (o, (line.at o fun q => if q = p then some n else none).narrowed)) := by
  obtain ⟨small, lines, lowered, rfl⟩ := Lower.ofFunction_ok is
  obtain ⟨place, h⟩ := Lower.lines_ok lowered
  have made := Chunk.ofLines_madeOf lines
  have kept := h.narrowed narrow small named
  have assembles : Assembles (Chunk.ofLines lines).code lines fun _ => none := by
    rw [Assembles, content_unfilled]
    exact made.code
  have visits := assembles.visits (fun line mem => (kept line mem).2) short
  have plain : ((located 0 lines).map fun (o, line) => (o, (line.at o fun _ => none).narrowed)) =
      (located 0 lines).map fun (o, line) => (o, line.instr) :=
    map_congr_left fun _ mem => by simp only [Line.at, Instr.fill_none,
      (kept _ (mem_of_located mem)).1]
  rw [plain] at visits
  have written (p n : Nat) (mem : p ∈ (Chunk.ofLines lines).holes) : ∃ code,
      writeU32 (Chunk.ofLines lines).code p n = .ok code ∧
      Visits code 0 ((located 0 lines).map fun (o, line) =>
        (o, (line.at o fun q => if q = p then some n else none).narrowed)) := by
    obtain ⟨o, line, k, there, hole, rfl⟩ := made.hole h.plain mem
    obtain ⟨code, write, assembles'⟩ := assembles.write (n := n) there hole
    exact ⟨code, write, assembles'.visits (fun line mem => (kept line mem).2) (by
      rw [assembles'.size, ← assembles.size]
      exact short)⟩
  obtain ⟨chunks, rfl, length, each⟩ := h.blocks
  refine ⟨chunks, place, visits, length, fun i b known => ?_, made.callSites, made.stubRefs,
    made.symbolRefs, made.trapSites, written⟩
  obtain ⟨last, there, at', exits⟩ := each i b known
  obtain ⟨edges, all, dests, -⟩ := Lower.blockExit_dests narrow (Steps.mem_toList_of_at known) exits
  exact ⟨at', last, there, exits, edges, all, dests⟩

/-- Loads a number, and calls another function with it or with where it was; the last block was
never filled. -/
def busy : Function where
  sig := ⟨[.i32], some .i32⟩
  blocks := #[
    { params := #[0], steps := #[⟨.load .i32 0 4, some 1, 7⟩],
      leave := some ⟨.branch 1 (some ⟨1, #[1]⟩) (some ⟨1, #[0]⟩), 9⟩ },
    { params := #[2], steps := #[⟨.call 3 [2, 2], some 3, 11⟩],
      leave := some ⟨.ret (some 3), 13⟩ }, {}]
  values := #[{ ty := .i32 }, { ty := .i32 }, { ty := .i32 }, { ty := .i32 }]

theorem Chunk.ofFunction_reads_busy :
    ∃ (c : Chunk) (chunks : List (List Line)), Chunk.ofFunction 5 busy = .ok c ∧ chunks.length = 3 ∧
    Visits c.code 0 ((located 0 (Lower.head 5 busy ++ chunks.flatten)).map fun (o, line) =>
      (o, line.instr)) ∧
    c.callSites.toList = (located 0 (Lower.head 5 busy ++ chunks.flatten)).filterMap callSite? := by
  have some' : ∃ c, Chunk.ofFunction 5 busy = .ok c ∧ c.code.size < UInt32.size := by
    have size : (Chunk.ofFunction 5 busy).toOption.map
        (decide <| ·.code.size < UInt32.size) = some true := by decide +kernel
    cases is : Chunk.ofFunction 5 busy with
    | error e => rw [is] at size; cases size
    | ok c => exact ⟨c, rfl, by simpa [is, Except.toOption] using size⟩
  obtain ⟨c, is, short⟩ := some'
  obtain ⟨chunks, _, visits, length, -, calls, -⟩ :=
    Chunk.ofFunction_reads ⟨by decide, by decide⟩ (by decide) is short
  exact ⟨c, chunks, is, length, visits, calls⟩

end Code
end Wasmill
