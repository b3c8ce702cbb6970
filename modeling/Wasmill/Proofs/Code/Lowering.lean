import Wasmill.Proofs.Code.Lines

/-! The lines of a function.

`Lower.lines` are the lines that a function's chunk is made of. Every block has its steps and its
exit there, one after another, at the place that the displacements of branches to it were computed
for. -/
namespace Wasmill.Code
open Ssa List Steps
variable {start : Nat} {places : Array Nat} {sizes : List (Nat × Nat)}

namespace Lower
variable {place : Nat → Nat} {chunks : List (List Line)} {o : Nat}

/-- The lines of a function. -/
def lines (func : Nat) (f : Function) : Except Error (List Line) := do
  let head := head func f
  let sizes ← f.blocks.toList.mapM (measure f)
  let places := offsets (sizeOf head) sizes
  let blocks ← (places.zip f.blocks.toList).mapM fun (start, b) => block f places.toArray start b
  return head ++ blocks.flatten

variable {f : Function} {func : Nat} {rel rel' : Nat → Int} {b : Block} {line line' : Line}
  {ls : List Line}

theorem sizeOf_eq (lines : List Line) : sizeOf lines = extent lines := by
  have run : ∀ (lines : List Line) (n : Nat), lines.foldl
      (fun n line => n + line.instr.size) n = n + extent lines := by
    intro lines
    induction lines with
    | nil => simp
    | cons line lines ih =>
      intro n
      rw [foldl_cons, ih, extent_cons, Line.size, Nat.add_assoc]
  rw [sizeOf, run, Nat.zero_add]

/-- The size of an exit does not depend on where it leads. -/
theorem blockExit_size (one : blockExit f rel b = .ok line) (two : blockExit f rel' b = .ok line') :
    line.size = line'.size := by
  have one := blockExit_ok one
  have two := blockExit_ok two
  generalize b.leave = leave at one two
  cases one with
  | jump | branch =>
    cases two
    simp [Line.size, Instr.size, Instr.encode, Instr.operands, Dest.encode_length, destOf]
  | table all =>
    cases two with
    | table all' =>
      obtain rfl := (List.map_inj_right fun _ _ => Option.some.inj).1 (all.symm.trans all')
      simp [Line.size, Instr.size, Instr.encode, Instr.operands, Dest.encode_length, destOf,
        length_flatMap, Function.comp_def]
  | _ => cases two; rfl

/-! ### Blocks -/

/-- The lines of a block without its exit. -/
def body (f : Function) (b : Block) : List Line := b.steps.toList.map (step f)

theorem block_ok (is : block f places start b = .ok ls) : ∃ last, ls = body f b ++ [last] ∧
      blockExit f (fun target => (places.getD target 0 : Int) - (start + extent (body f b) : Nat)) b
        = .ok last := by
  obtain ⟨last, exits, is⟩ := except_ok is
  cases is
  refine ⟨last, rfl, ?_⟩
  rw [← sizeOf_eq]
  exact exits

theorem measure_ok {size : Nat × Nat} (is : measure f b = .ok size) :
    ∃ last, blockExit f (fun _ => 0) b = .ok last ∧ size = (extent (body f b), last.size) := by
  obtain ⟨last, exits, is⟩ := except_ok is
  cases is
  exact ⟨last, exits, by rw [sizeOf_eq]; rfl⟩

/-- Each block lies where it was measured to lie. -/
theorem blocks_placed {bs : List Block} (measured : bs.map (measure f) = sizes.map .ok)
    (made : ((offsets start sizes).zip bs).map (fun (start, b) => block f places start b) =
      chunks.map .ok) :
    chunks.length = bs.length ∧ ∀ i b, bs[i]? = some b →
      ∃ last, chunks[i]? = some (body f b ++ [last]) ∧
      (offsets start sizes)[i]? = some (start + extent (chunks.take i).flatten) ∧
        blockExit f (fun target =>
        (places.getD target 0 : Int) - (start + extent (chunks.take i).flatten + extent
          (body f b) : Nat)) b = .ok last := by
  induction bs generalizing start sizes chunks with
  | nil =>
    cases chunks with
    | nil => exact ⟨rfl, fun _ _ mem => by cases mem⟩
    | cons _ _ => simp at made
  | cons b' bs ih =>
    cases sizes with
    | nil => cases measured
    | cons size sizes =>
      simp only [map_cons, List.cons.injEq] at measured
      obtain ⟨first, exits, rfl⟩ := measure_ok measured.1
      cases chunks with
      | nil => cases made
      | cons chunk chunks =>
        simp only [offsets, zip_cons_cons, map_cons, List.cons.injEq] at made
        obtain ⟨last, rfl, exits'⟩ := block_ok made.1
        obtain ⟨length, each⟩ := ih measured.2 made.2
        refine ⟨congrArg (· + 1) length, fun i b mem => ?_⟩
        cases i with
        | zero =>
          cases mem
          exact ⟨last, rfl, by simp [offsets], by simpa using exits'⟩
        | succ i =>
          obtain ⟨last', there, place, exits''⟩ := each i b mem
          have before : start + extent (((body f b' ++ [last]) :: chunks).take (i + 1)).flatten =
              start + extent (body f b') + first.size + extent (chunks.take i).flatten := by
            simp only [take_succ_cons, flatten_cons, extent_append, extent_cons, extent_nil,
              blockExit_size exits exits']
            omega
          rw [before]
          exact ⟨last', there, place, exits''⟩

/-- The line of a block that lies at `start`, for the branches of which the displacements are
computed from `places`. -/
inductive InBlock (f : Function) (place : Nat → Nat) (start : Nat) (b : Block) : Nat → Line → Prop
  | step {k : Nat} {s : Step} : b.steps[k]? = some s →
      InBlock f place start b (start + extent ((body f b).take k)) (Lower.step f s)
  | exit {line : Line} : blockExit f (fun target =>
      (place target : Int) - (start + extent (body f b) : Nat)) b = .ok line →
      InBlock f place start b (start + extent (body f b)) line

theorem inBlock_of_located {last : Line}
    (exits : blockExit f (fun target => (place target : Int) - (start + extent (body f b) : Nat))
      b = .ok last)
    (mem : (o, line) ∈ located start (body f b ++ [last])) : InBlock f place start b o line := by
  rw [located_append] at mem
  rcases mem_append.1 mem with mem | mem
  · obtain ⟨before, after, is, rfl⟩ := located_split mem
    have at' : (body f b)[before.length]? = some line := by rw [is]; simp
    obtain ⟨s, there, rfl⟩ := by simpa [body] using at'
    have first : (body f b).take before.length = before := by rw [is]; simp
    have inside : InBlock f place start b (start + extent ((body f b).take before.length))
        (step f s) := .step there
    rwa [first] at inside
  · rw [located_cons, located_nil, mem_singleton] at mem
    cases mem
    exact .exit exits

/-! ### Functions -/

theorem located_flatten (mem : (o, line) ∈ located start chunks.flatten) :
    ∃ i chunk, chunks[i]? = some chunk ∧ (o, line) ∈ located
      (start + extent (chunks.take i).flatten) chunk := by
  induction chunks generalizing start with
  | nil => cases mem
  | cons chunk chunks ih =>
    rw [flatten_cons, located_append] at mem
    rcases mem_append.1 mem with mem | mem
    · exact ⟨0, chunk, rfl, mem⟩
    · obtain ⟨i, chunk', there, inside⟩ := ih mem
      refine ⟨i + 1, chunk', there, ?_⟩
      rwa [take_succ_cons, flatten_cons, extent_append, ← Nat.add_assoc]

/-- The lines of a function and the places of its blocks among them: block after block its steps and
its exit. -/
structure Lowered (func : Nat) (f : Function) (lines : List Line) (place : Nat → Nat) : Prop where
  blocks : ∃ chunks : List (List Line), lines = head func f ++ chunks.flatten ∧
    chunks.length = f.blocks.size ∧
    ∀ i b, f.blocks[i]? = some b → ∃ last, chunks[i]? = some (body f b ++ [last]) ∧
      place i = extent (head func f ++ (chunks.take i).flatten) ∧
      blockExit f (fun target => (place target : Int) - (place i + extent (body f b) : Nat))
        b = .ok last

namespace Lowered
variable {place : Nat → Nat} (h : Lowered func f ls place)
include h

theorem head : ∃ rest, ls = Lower.head func f ++ rest :=
  let ⟨chunks, is, _⟩ := h.blocks
  ⟨chunks.flatten, is⟩

theorem block (i : Nat) (b : Block) (known : f.blocks[i]? = some b) : ∃ before after last,
    ls = before ++ body f b ++ last :: after ∧ place i = extent before ∧
      blockExit f (fun target => (place target : Int) - (place i + extent (body f b) : Nat)) b =
        .ok last := by
  obtain ⟨chunks, is, -, each⟩ := h.blocks
  obtain ⟨last, there, place, exits⟩ := each i b known
  obtain ⟨inside, this⟩ := List.getElem?_eq_some_iff.1 there
  refine ⟨_, (chunks.drop (i + 1)).flatten, last, ?_, place, exits⟩
  have split := congrArg List.flatten (take_append_drop i chunks)
  rw [drop_eq_getElem_cons inside, this] at split
  rw [is, ← split]
  simp

theorem first (some' : f.blocks.size ≠ 0) : place 0 = extent (Lower.head func f) := by
  obtain ⟨chunks, -, -, each⟩ := h.blocks
  obtain ⟨last, -, at', -⟩ := each 0 _ (Array.getElem?_eq_getElem (Nat.pos_of_ne_zero some'))
  simpa using at'

theorem source (o : Nat) (line : Line) (mem : (o, line) ∈ located 0 ls) :
    (o, line) ∈ located 0 (Lower.head func f) ∨
    ∃ (i : Nat) (b : Block), f.blocks[i]? = some b ∧ InBlock f place (place i) b o line := by
  obtain ⟨chunks, rfl, length, each⟩ := h.blocks
  rw [located_append] at mem
  refine (mem_append.1 mem).imp_right fun mem => ?_
  obtain ⟨i, chunk, there, inside⟩ := located_flatten mem
  obtain ⟨b, known⟩ : ∃ b, f.blocks[i]? = some b :=
    ⟨_, Array.getElem?_eq_getElem (length ▸ (List.getElem?_eq_some_iff.1 there).1)⟩
  obtain ⟨last, is, at', exits⟩ := each i b known
  obtain rfl := Option.some.inj (there.symm.trans is)
  rw [Nat.zero_add, ← extent_append, ← at'] at inside
  exact ⟨i, b, known, inBlock_of_located exits inside⟩

end Lowered

theorem head_plain (mem : line ∈ head func f) : line.Plain := by
  simp only [head, mem_cons, not_mem_nil, or_false] at mem
  rcases mem with rfl | rfl <;> exact ⟨rfl, rfl, rfl⟩

/-- The lines of a function are those before its blocks, the steps of blocks, and their exits. -/
theorem Lowered.forall (h : Lowered func f ls place) {P : Line → Prop}
    (first : ∀ line ∈ Lower.head func f, P line)
    (steps : ∀ b ∈ f.blocks.toList, ∀ s ∈ b.steps.toList, P (step f s))
    (exits : ∀ b ∈ f.blocks.toList, ∀ rel line, blockExit f rel b = .ok line → P line) :
    ∀ line ∈ ls, P line := by
  intro line mem
  obtain ⟨o, there⟩ : ∃ o, (o, line) ∈ located 0 ls := located_of_mem mem
  rcases h.source o line there with inside | ⟨i, b, known, inside⟩
  · exact first line (mem_of_located inside)
  · have known : b ∈ f.blocks.toList := mem_toList_of_at known
    cases inside with
    | step at' => exact steps b known _ (mem_toList_of_at at')
    | exit is => exact exits b known _ line is

theorem Lowered.plain (h : Lowered func f ls place) : ∀ line ∈ ls, line.Plain :=
  h.forall (fun _ => head_plain) (fun _ _ s _ => step_plain f s) fun _ _ _ _ => blockExit_plain

theorem lines_ok (is : lines func f = .ok ls) : ∃ place, Lowered func f ls place := by
  obtain ⟨sizes, measured, is⟩ := except_ok is
  obtain ⟨chunks, made, is⟩ := except_ok is
  cases is
  rw [mapM_ok] at measured made
  rw [sizeOf_eq] at made
  let places := offsets (extent (head func f)) sizes
  obtain ⟨length, each⟩ := blocks_placed measured made
  refine ⟨fun i => places.toArray.getD i 0, chunks, rfl, by simpa using length, fun i b known => ?_⟩
  obtain ⟨last, there, place, exits⟩ := each i b (by rw [Array.getElem?_toList]; exact known)
  have at' : places.toArray.getD i 0 = extent (head func f ++ (chunks.take i).flatten) := by
    rw [Array.getD_eq_getD_getElem?, getElem?_toArray, place, extent_append]
    rfl
  refine ⟨last, there, at', ?_⟩
  rw [at', extent_append]
  exact exits

theorem ofFunction_ok {c : Chunk} (is : Chunk.ofFunction func f = .ok c) :
    f.values.size < UInt32.size ∧
      ∃ lines, Lower.lines func f = .ok lines ∧
        c = { Chunk.ofLines lines with entry := profilingEntrySize } := by
  unfold Chunk.ofFunction at is
  split at is
  · cases is
  · obtain ⟨sizes, measured, is⟩ := except_ok is
    obtain ⟨chunks, made, is⟩ := except_ok is
    refine ⟨by omega, _, ?_, (Except.ok.inj is).symm⟩
    unfold lines
    rw [measured]
    exact congrArg (· >>= fun blocks => pure (head func f ++ blocks.flatten)) made

end Lower
end Wasmill.Code
