import Mathlib.Algebra.GroupWithZero.Nat
import Mathlib.Data.List.Pairwise
import Wasmill.Code.Chunk
import Wasmill.Code.Link
import Wasmill.Proofs.Code.Encoding

/-! Code as a list of lines.

`located start lines` gives every line with its offset. An instruction has *holes*, the operands
that are written after it was placed: the displacement of a call, symbols, stubs and the targets of
far jumps. `content lines filled` are the bytes of the lines when the holes at the places where
`filled` says so have been written; writing a number into a hole is one more entry of `filled`. -/
namespace Wasmill.Code
open Ssa List

/-! ### Where lines lie -/

def Line.size (line : Line) : Nat := line.instr.size

/-- The size of lines one after another. -/
def extent (lines : List Line) : Nat := (lines.map Line.size).sum

/-- Lines with their offsets, the first at `start`. -/
def located (start : Nat) : List Line → List (Nat × Line)
  | [] => []
  | line :: rest => (start, line) :: located (start + line.size) rest

section
variable {start o p k : Nat} {line line' : Line} {lines a b : List Line}

@[simp] theorem extent_nil : extent [] = 0 := rfl

@[simp] theorem extent_cons : extent (line :: lines) = line.size + extent lines := rfl

@[simp] theorem extent_append : extent (a ++ b) = extent a + extent b := by
  simp [extent, sum_append]

theorem Instr.size_pos (i : Instr) : 0 < i.size := by
  simp only [Instr.size, Instr.encode, length_append, u8_length]
  omega

theorem Line.size_pos (line : Line) : 0 < line.size := line.instr.size_pos

@[simp] theorem located_nil : located start [] = [] := rfl

@[simp] theorem located_cons :
    located start (line :: lines) = (start, line) :: located (start + line.size) lines := rfl

theorem located_append :
    located start (a ++ b) = located start a ++ located (start + extent a) b := by
  induction a generalizing start with
  | nil => simp
  | cons line a ih => simp [ih, Nat.add_assoc]

/-- Lines keep their order and their distances wherever they are placed. -/
theorem located_add (k start : Nat) (lines : List Line) :
    located (k + start) lines = (located start lines).map fun (o, line) => (k + o, line) := by
  induction lines generalizing start with
  | nil => rfl
  | cons line lines ih => simp only [located_cons, map_cons, Nat.add_assoc, ih]

theorem map_snd_located (start : Nat) (lines : List Line) :
    (located start lines).map Prod.snd = lines := by
  induction lines generalizing start with
  | nil => rfl
  | cons line lines ih => simp [ih]

theorem mem_of_located (mem : (o, line) ∈ located start lines) : line ∈ lines := by
  rw [← map_snd_located start lines]
  exact mem_map_of_mem mem

theorem located_of_mem (mem : line ∈ lines) : ∃ o, (o, line) ∈ located start lines := by
  rw [← map_snd_located start lines] at mem
  obtain ⟨⟨o, line⟩, there, rfl⟩ := mem_map.1 mem
  exact ⟨o, there⟩

theorem located_le (mem : (o, line) ∈ located start lines) :
    start ≤ o ∧ o + line.size ≤ start + extent lines := by
  induction lines generalizing start with
  | nil => cases mem
  | cons first lines ih =>
    rcases mem_cons.1 mem with is | mem
    · cases is
      exact ⟨Nat.le_refl _, by simp⟩
    · have := ih mem
      simp only [extent_cons]
      omega

/-- Of two different members one comes first. -/
theorem pairwise_cases {α : Type} {R : α → α → Prop} {l : List α} {a b : α} (order : l.Pairwise R)
    (one : a ∈ l) (two : b ∈ l) :
    a = b ∨ R a b ∨ R b a := by
  have : Std.Symm fun a b => R a b ∨ R b a := ⟨fun _ _ => Or.symm⟩
  have either : l.Pairwise fun a b => R a b ∨ R b a := order.imp .inl
  exact or_iff_not_imp_left.2 (either.forall one two)

theorem located_order (lines : List Line) (start : Nat) : (located start lines).Pairwise fun a b =>
    a.1 + a.2.size ≤ b.1 := by
  induction lines generalizing start with
  | nil => exact List.Pairwise.nil
  | cons line lines ih => exact List.Pairwise.cons (fun _ mem => (located_le mem).1) (ih _)

/-- Two lines that overlap are one. -/
theorem located_unique (one : (o, line) ∈ located start lines)
    (two : (p, line') ∈ located start lines)
    (before : p < o + line.size) (after : o < p + line'.size) : o = p ∧ line = line' := by
  rcases pairwise_cases (located_order lines start) one two with same | le | le
  · exact Prod.mk.inj same
  · exact absurd le (Nat.not_le_of_lt before)
  · exact absurd le (Nat.not_le_of_lt after)

theorem located_eq (one : (o, line) ∈ located start lines)
    (two : (o, line') ∈ located start lines) : line = line' :=
  (located_unique one two (by have := line.size_pos; omega) (by have := line'.size_pos; omega)).2

theorem located_split (mem : (o, line) ∈ located start lines) :
    ∃ before after, lines = before ++ line :: after ∧ o = start + extent before := by
  induction lines generalizing start with
  | nil => cases mem
  | cons first lines ih =>
    rcases mem_cons.1 mem with is | mem
    · cases is
      exact ⟨[], lines, rfl, by simp⟩
    · obtain ⟨before, after, rfl, rfl⟩ := ih mem
      exact ⟨first :: before, after, rfl, by simp [Nat.add_assoc]⟩

end

/-! ### Holes -/

namespace Instr

/-- The places of the operands that are written after the instruction was placed. -/
def holes : Instr → List Nat
  | prologue _ _ => [5]
  | checkInterrupt _ _ => [1, 5]
  | load _ _ _ _ _ | store _ _ _ _ _ => [14]
  | memorySize _ _ | memoryGrow _ _ _ => [1]
  | call _ _ _ => [1]
  | jumpFar _ => [1]
  | exit _ _ _ _ _ => [1, 13]
  | _ => []

/-- The displacement that a call was given, if it was given one. -/
def displacement (rel : Int) : Option Nat → Int
  | some n => signedWord n
  | none => rel

/-- The instruction with its holes filled, as far as numbers for them are given. -/
def fill (value : Nat → Option Nat) : Instr → Instr
  | prologue frameSize stub => prologue frameSize ((value 5).getD stub)
  | checkInterrupt symbol stub => checkInterrupt ((value 1).getD symbol) ((value 5).getD stub)
  | load kind dst addr offset stub => load kind dst addr offset ((value 14).getD stub)
  | store kind addr src offset stub => store kind addr src offset ((value 14).getD stub)
  | memorySize symbol dst => memorySize ((value 1).getD symbol) dst
  | memoryGrow symbol dst delta => memoryGrow ((value 1).getD symbol) dst delta
  | call rel args dst => call (displacement rel (value 1)) args dst
  | jumpFar target => jumpFar ((value 1).getD target)
  | exit optimized symbol importIndex nargs stub =>
    exit optimized ((value 1).getD symbol) importIndex nargs ((value 13).getD stub)
  | i => i

variable {i : Instr} {value value' : Nat → Option Nat}

theorem fill_congr (same : ∀ h ∈ i.holes, value h = value' h) : i.fill value = i.fill value' := by
  cases i <;> simp only [holes, mem_cons, not_mem_nil, or_false, forall_eq_or_imp,
    forall_eq] at same <;>
    simp [fill, same]

@[simp] theorem fill_none : i.fill (fun _ => none) = i := by cases i <;> rfl

theorem fill_whole (whole : i.holes = []) : i.fill value = i :=
  (fill_congr (by simp [whole])).trans fill_none

@[simp] theorem fill_size : (i.fill value).size = i.size := by
  cases i <;> simp [fill, size, encode, operands]

theorem hole_le {h : Nat} (mem : h ∈ i.holes) : 0 < h ∧ h + 4 ≤ i.size := by
  cases i <;> simp only [holes, mem_cons, not_mem_nil, or_false] at mem <;>
    simp only [size, encode, operands, length_append, u8_length, u32_length, i32_length,
      encodeArgs_length] <;> omega

end Instr

theorem u32_word (n : Nat) : u32 (n % UInt32.size) = u32 n := by
  have byte : ∀ m : Nat, UInt8.ofNat (m % 256) = UInt8.ofNat m := fun m => by
    apply UInt8.toNat_inj.1
    simp
  have bytes : ∀ (k m : Nat), le k (m % Nat.pow 256 k) = le k m := by
    intro k
    induction k with
    | zero => intro m; rfl
    | succ k ih =>
      intro m
      have pow : Nat.pow 256 (k + 1) = 256 * Nat.pow 256 k := Nat.mul_comm _ _
      rw [le, le, pow, ← byte, Nat.mod_mul_right_mod, byte, Nat.mod_mul_right_div_self, ih]
  exact bytes 4 n

theorem i32_displacement (rel : Int) (n : Nat) : i32 (Instr.displacement rel (some n)) = u32 n := by
  have is : (signedWord n % UInt32.size).toNat = n % UInt32.size := by
    rw [signedWord, Int.bmod_emod]
    exact Int.toNat_natCast _
  rw [i32, Instr.displacement, is, u32_word]

namespace Instr
variable {i : Instr}

/-- One hole more is four bytes changed. -/
theorem encode_fill {h : Nat} (value : Nat → Option Nat) (mem : h ∈ i.holes) (n : Nat) :
    ∃ before old after, before.length = h ∧ old.length = 4 ∧
      (i.fill value).encode = before ++ old ++ after ∧
      (i.fill fun p => if p = h then some n else value p).encode = before ++ u32 n ++ after := by
  cases i with
  | prologue frameSize stub =>
    cases mem_singleton.1 mem
    refine ⟨u8 Opcode.prologue.toByte ++ u32 frameSize, u32 ((value 5).getD stub), [], ?_⟩
    simp [fill, encode, operands, opcode]
  | checkInterrupt symbol stub =>
    simp only [holes, mem_cons, not_mem_nil, or_false] at mem
    rcases mem with rfl | rfl
    · refine ⟨u8 Opcode.checkInterrupt.toByte, u32 ((value 1).getD symbol),
        u32 ((value 5).getD stub), ?_⟩
      simp [fill, encode, operands, opcode]
    · refine ⟨u8 Opcode.checkInterrupt.toByte ++ u32 ((value 1).getD symbol),
        u32 ((value 5).getD stub), [], ?_⟩
      simp [fill, encode, operands, opcode]
  | load kind dst addr offset stub =>
    cases mem_singleton.1 mem
    refine ⟨u8 Opcode.load.toByte ++ (u8 kind.toByte ++ u32 dst ++ u32 addr ++ u32 offset),
      u32 ((value 14).getD stub), [], ?_⟩
    simp [fill, encode, operands, opcode]
  | store kind addr src offset stub =>
    cases mem_singleton.1 mem
    refine ⟨u8 Opcode.store.toByte ++ (u8 kind.toByte ++ u32 addr ++ u32 src ++ u32 offset),
      u32 ((value 14).getD stub), [], ?_⟩
    simp [fill, encode, operands, opcode]
  | memorySize symbol dst =>
    cases mem_singleton.1 mem
    refine ⟨u8 Opcode.memorySize.toByte, u32 ((value 1).getD symbol), u32 dst, ?_⟩
    simp [fill, encode, operands, opcode]
  | memoryGrow symbol dst delta =>
    cases mem_singleton.1 mem
    refine ⟨u8 Opcode.memoryGrow.toByte, u32 ((value 1).getD symbol), u32 dst ++ u32 delta, ?_⟩
    simp [fill, encode, operands, opcode]
  | call rel args dst =>
    cases mem_singleton.1 mem
    refine ⟨u8 Opcode.call.toByte, i32 (displacement rel (value 1)), encodeArgs args ++ u32 dst, ?_⟩
    simp [fill, encode, operands, opcode, i32_displacement]
  | jumpFar target =>
    cases mem_singleton.1 mem
    refine ⟨u8 Opcode.jumpFar.toByte, u32 ((value 1).getD target), [], ?_⟩
    simp [fill, encode, operands, opcode]
  | exit optimized symbol importIndex nargs stub =>
    simp only [holes, mem_cons, not_mem_nil, or_false] at mem
    rcases mem with rfl | rfl
    · refine ⟨u8 (exit optimized symbol importIndex nargs stub).opcode.toByte,
        u32 ((value 1).getD symbol),
        u32 importIndex ++ u32 nargs ++ u32 ((value 13).getD stub), ?_⟩
      simp [fill, encode, operands, opcode]
    · refine ⟨u8 (exit optimized symbol importIndex nargs stub).opcode.toByte ++
        (u32 ((value 1).getD symbol) ++ u32 importIndex ++ u32 nargs), u32
          ((value 13).getD stub), [], ?_⟩
      simp [fill, encode, operands, opcode]
  | _ => simp [holes] at mem

end Instr

/-! ### The bytes of lines -/

/-- An instruction as it stands at its offset, holes filled as far as numbers are given for their
places. -/
def Line.at (line : Line) (o : Nat) (filled : Nat → Option Nat) : Instr :=
  line.instr.fill fun h => filled (o + h)

/-- The bytes of lines whose holes are filled at the places where `filled` gives a number. -/
def content (start : Nat) (lines : List Line) (filled : Nat → Option Nat) : List UInt8 :=
  (located start lines).flatMap fun (o, line) => (line.at o filled).encode

section
variable {start o p n : Nat} {line : Line} {lines a b : List Line}
  {filled filled' : Nat → Option Nat}

@[simp] theorem Line.at_size : (line.at o filled).size = line.size := Instr.fill_size

@[simp] theorem content_cons : content start (line :: lines) filled =
    (line.at start filled).encode ++ content (start + line.size) lines filled := rfl

theorem content_append :
    content start (a ++ b) filled = content start a filled ++ content (start + extent a) b filled := by
  simp [content, located_append]

@[simp] theorem content_length : (content start lines filled).length = extent lines := by
  induction lines generalizing start with
  | nil => rfl
  | cons line lines ih =>
    have size : (line.at start filled).encode.length = line.size := Line.at_size
    simp only [content_cons, length_append, extent_cons, ih, size]

/-- Before anything is written the lines are as they were made. -/
theorem content_unfilled (start : Nat) (lines : List Line) :
    content start lines (fun _ => none) = lines.flatMap (·.instr.encode) := by
  induction lines generalizing start with
  | nil => rfl
  | cons line lines ih => simp [Line.at, ih]

/-- The content depends only on the holes that lie in it. -/
theorem content_congr (same : ∀ o line h, (o, line) ∈ located start lines → h ∈ line.instr.holes →
    filled (o + h) = filled'
      (o + h)) : content start lines filled = content start lines filled' := by
  induction lines generalizing start with
  | nil => rfl
  | cons line lines ih =>
    have here : line.at start filled = line.at start filled' :=
      Instr.fill_congr fun h mem => same start line h mem_cons_self mem
    have rest := ih fun o line h mem => same o line h (mem_cons_of_mem _ mem)
    simp only [content_cons, here, rest]

/-- Writing one hole changes the bytes of that hole. -/
theorem content_fill (filled : Nat → Option Nat) (n : Nat) (mem : (o, line) ∈ located start lines)
    {h : Nat} (hole : h ∈ line.instr.holes) :
    ∃ before old after, start + before.length = o + h ∧ old.length = 4 ∧
      content start lines filled = before ++ old ++ after ∧
      content start lines (fun p => if p = o + h then some n else filled p) =
        before ++ u32 n ++ after := by
  obtain ⟨front, back, rfl, rfl⟩ := located_split mem
  generalize filled'_is : (fun p => if p = start + extent front + h then some n
    else filled p) = filled'
  have ⟨_, inside⟩ := Instr.hole_le hole
  -- the holes of the lines before and behind lie elsewhere
  have frontSame : content start front filled = content start front filled' :=
    content_congr fun o line k mem kHole => by
    have ⟨_, _⟩ := located_le mem
    have ⟨_, le⟩ := Instr.hole_le kHole
    simp only [Line.size] at *
    simp only [← filled'_is]
    rw [if_neg (by omega)]
  have backSame : content (start + extent front + line.size) back filled =
      content (start + extent front + line.size) back filled' :=
        content_congr fun o line k mem kHole => by
    have ⟨_, _⟩ := located_le mem
    simp only [Line.size] at *
    simp only [← filled'_is]
    rw [if_neg (by omega)]
  obtain ⟨before, old, after, beforeLen, oldLen, was, is⟩ :=
    Instr.encode_fill (fun k => filled (start + extent front + k)) hole n
  have is' : (line.at (start + extent front) filled').encode = before ++ u32 n ++ after := by
    rw [← is, Line.at]
    congr 2
    funext k
    simp [← filled'_is]
  refine ⟨content start front filled ++ before, old,
    after ++ content (start + extent front + line.size) back filled, ?_, oldLen, ?_, ?_⟩
  · simp [beforeLen, Nat.add_assoc]
  · have was' : (line.at (start + extent front) filled).encode = before ++ old ++ after := was
    simp [content_append, was']
  · simp [content_append, is', ← frontSame, ← backSame]

end

/-! ### Writing -/

section
variable {code : ByteArray} {pos n o start : Nat} {line : Line} {lines : List Line}
  {filled : Nat → Option Nat}

theorem overwrite_size (code : ByteArray) (pos : Nat) (bytes : List UInt8) :
    (overwrite code pos bytes).size = code.size := by
  induction bytes generalizing code pos with
  | nil => rfl
  | cons b bytes ih =>
    rw [overwrite, ih]
    exact Array.size_setIfInBounds

theorem overwrite_toList {bytes : List UInt8} (inside : pos + bytes.length ≤ code.size) :
    (overwrite code pos bytes).data.toList =
      code.data.toList.take pos ++ bytes ++ code.data.toList.drop (pos + bytes.length) := by
  induction bytes generalizing code pos with
  | nil => simp [overwrite]
  | cons b bytes ih =>
    simp only [length_cons] at inside
    have set : (code.set! pos b).data.toList = code.data.toList.set pos b :=
      Array.toList_setIfInBounds
    have size : (code.set! pos b).size = code.size := Array.size_setIfInBounds
    have len : code.data.toList.length = code.size := rfl
    rw [overwrite, ih (by omega), set]
    have take : (code.data.toList.set pos b).take (pos + 1) = code.data.toList.take pos ++ [b] := by
      rw [take_succ_eq_append_getElem (by simp; omega)]
      simp [take_set_of_le]
    have drop : (code.data.toList.set pos b).drop (pos + 1 + bytes.length) =
        code.data.toList.drop (pos + 1 + bytes.length) := by
      rw [drop_set_of_lt (by omega)]
    rw [take, drop]
    simp [Nat.add_assoc, Nat.add_comm 1]

/-- The code is these lines, from offset zero on. -/
def Assembles (code : ByteArray) (lines : List Line) (filled : Nat → Option Nat) : Prop :=
  code.data.toList = content 0 lines filled

variable (h : Assembles code lines filled)
include h

theorem Assembles.size : code.size = extent lines := by
  have : code.data.toList.length = code.size := rfl
  rw [← this, h, content_length]

/-- A number can be written into every hole, and nothing else changes. -/
theorem Assembles.write (mem : (o, line) ∈ located 0 lines) {k : Nat}
    (hole : k ∈ line.instr.holes) :
    ∃ code', writeU32 code (o + k) n = .ok code' ∧ Assembles code' lines fun p =>
      if p = o + k then some n else filled p := by
  have ⟨_, le⟩ := located_le mem
  have ⟨_, inside⟩ := Instr.hole_le hole
  have fits : o + k + 4 ≤ code.size := by
    simp only [Line.size] at le
    rw [h.size]
    omega
  refine ⟨overwrite code (o + k) (u32 n), if_pos fits, ?_⟩
  obtain ⟨before, old, after, place, oldLen, was, is⟩ := content_fill filled n mem hole
  rw [Nat.zero_add] at place
  rw [Assembles, overwrite_toList (by simpa using fits), h, was, is, ← place]
  simp [oldLen, drop_append]

theorem Assembles.holds (mem : (o, line) ∈ located 0 lines) :
    Holds code o (line.at o filled).encode := by
  obtain ⟨front, back, rfl, rfl⟩ := located_split mem
  refine ⟨content (0 + extent front + line.size) back filled, ?_⟩
  rw [h, content_append, content_cons, Nat.zero_add, drop_left' content_length]

end
end Wasmill.Code
