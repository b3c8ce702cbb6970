import Mathlib.Algebra.GroupWithZero.Nat
import Wasmill.Ssa.Eval

/-! Vectors, lane by lane.

A vector is as good as its lanes: what is put together from lanes has just these. Main statement:
arithmetic on vectors is arithmetic on numbers modulo a power of two in each lane, with nothing
carried from one lane into the next, and lanes that are read, replaced, spread or picked are the
ones that were asked for. -/
namespace Wasmill.Ssa
open List
variable {i bits : Nat} {shape : LaneShape} {places : List Nat}

/-! ### Lanes of a vector -/

theorem lane_ofLanes {lanes : List (BitVec bits)} (fits : lanes.length * bits ≤ 128)
    {l : BitVec bits}
    (at' : lanes[i]? = some l) : lane bits (ofLanes bits lanes) i = l := by
  induction lanes generalizing i with
  | nil => cases at'
  | cons first rest ih =>
    have room : rest.length * bits + bits ≤ 128 := by rwa [length_cons, Nat.succ_mul] at fits
    refine BitVec.eq_of_getLsbD_eq fun k lt => ?_
    cases i with
    | zero =>
      cases at'
      simp [lane, ofLanes, lt, show k < 128 by omega]
    | succ i =>
      rw [getElem?_cons_succ] at at'
      have inside : (i + 1) * bits ≤ rest.length * bits :=
        Nat.mul_le_mul_right bits (List.getElem?_eq_some_iff.1 at').1
      rw [Nat.succ_mul] at inside
      -- the first lane lies below, and the others are where they were, one lane up
      rw [← ih (by omega) at']
      simp only [lane, ofLanes, foldr_cons, BitVec.getLsbD_setWidth, BitVec.getLsbD_ushiftRight,
        BitVec.getLsbD_or,
        BitVec.getLsbD_shiftLeft, Nat.succ_mul]
      rw [BitVec.getLsbD_of_ge first _ (by omega),
        show i * bits + bits + k - bits = i * bits + k by omega]
      simp [lt]
      omega

/-- Words that fit are joined one after another, and the bits above them are clear. -/
theorem getLsbD_joined {words : Nat → BitVec 64}
    (fits : ∀ i k, bits ≤ k → (words i).getLsbD k = false)
    (pos : 0 < bits) (n : Nat) {k : Nat} (lt : k < 128) :
    ((range n).foldl (fun out i => out ||| (words i).setWidth 128 <<< (i * bits))
      (0 : Slot)).getLsbD k =
      (decide (k / bits < n) && (words (k / bits)).getLsbD (k % bits)) := by
  induction n with
  | zero => simp
  | succ n ih =>
    rw [range_succ, foldl_append, foldl_cons, foldl_nil, BitVec.getLsbD_or, ih,
      BitVec.getLsbD_shiftLeft,
      BitVec.getLsbD_setWidth]
    have split := Nat.div_add_mod' k bits
    have small := Nat.mod_lt k pos
    rcases Nat.lt_trichotomy (k / bits) n with less | rfl | more
    · have below : k < n * bits := by
        have := Nat.mul_le_mul_right bits less
        rw [Nat.succ_mul] at this
        omega
      simp [less, Nat.lt_succ_of_lt less, below]
    · have cut : k - k / bits * bits = k % bits := by omega
      simp [lt, cut, show ¬ k < k / bits * bits by omega, show k % bits < 128 by omega]
    · have above : bits ≤ k - n * bits := by
        have := Nat.mul_le_mul_right bits more
        rw [Nat.succ_mul] at this
        omega
      simp [fits n _ above, show ¬ k / bits < n by omega, show ¬ k / bits < n + 1 by omega]

namespace LaneShape

variable (shape : LaneShape)

theorem lanes_eq : 128 / shape.laneBits = shape.lanes := by cases shape <;> rfl

theorem lanes_mul : shape.lanes * shape.laneBits = 128 := by cases shape <;> rfl

theorem inside (lt : i < shape.lanes) : i * shape.laneBits + shape.laneBits ≤ 128 := by
  have := Nat.mul_le_mul_right shape.laneBits lt
  rwa [Nat.succ_mul, shape.lanes_mul] at this

theorem shift_of_lt (lt : i < shape.lanes) : shape.shift i = i * shape.laneBits := by
  have := shape.inside lt
  have : 0 < shape.laneBits := by cases shape <;> decide
  exact Nat.mod_eq_of_lt (by omega)

/-! ### Lanes as words -/

theorem mask_eq : laneMask shape.laneBits = (BitVec.allOnes shape.laneBits).setWidth 64 := by
  cases shape <;> rfl

theorem bits_pos : 0 < shape.laneBits := by cases shape <;> decide

theorem bits_le : shape.laneBits ≤ 64 := by cases shape <;> decide

theorem getLsbD_and_mask (x : BitVec 64) (k : Nat) :
    (x &&& laneMask shape.laneBits).getLsbD k = (decide (k < shape.laneBits) && x.getLsbD k) := by
  have := shape.bits_le
  rw [BitVec.getLsbD_and, shape.mask_eq, BitVec.getLsbD_setWidth, BitVec.getLsbD_allOnes]
  by_cases lt : k < shape.laneBits
  · simp [lt, show k < 64 by omega]
  · simp [lt]

/-- A mask cuts a word to the width of a lane. -/
theorem and_mask (x : BitVec 64) :
    x &&& laneMask shape.laneBits = (x.setWidth shape.laneBits).setWidth 64 := by
  refine BitVec.eq_of_getLsbD_eq fun k lt => ?_
  rw [shape.getLsbD_and_mask, BitVec.getLsbD_setWidth, BitVec.getLsbD_setWidth]
  simp [lt]

theorem laneWord_eq (v : Slot) (i : Nat) :
    laneWord shape.laneBits v i = (lane shape.laneBits v i).setWidth 64 := by
  rw [laneWord, lane, shape.and_mask, BitVec.setWidth_setWidth_of_le _ shape.bits_le]

/-- A lane holds what it has room for of the word that was put into it. -/
theorem lane_joinLanes (words : Nat → BitVec 64) (lt : i < shape.lanes) :
    lane shape.laneBits (joinLanes shape.laneBits words) i = (words i).setWidth shape.laneBits := by
  have inside := shape.inside lt
  refine BitVec.eq_of_getLsbD_eq fun k small => ?_
  have fits (i k : Nat) (le : shape.laneBits ≤ k) :
      (words i &&& laneMask shape.laneBits).getLsbD k = false := by
    rw [shape.getLsbD_and_mask]
    simp [Nat.not_lt.2 le]
  have div : (i * shape.laneBits + k) / shape.laneBits = i := by
    rw [Nat.mul_comm, Nat.mul_add_div shape.bits_pos, Nat.div_eq_of_lt small, Nat.add_zero]
  have mod : (i * shape.laneBits + k) % shape.laneBits = k := by
    rw [Nat.mul_comm, Nat.mul_add_mod, Nat.mod_eq_of_lt small]
  rw [lane, joinLanes, BitVec.getLsbD_setWidth, BitVec.getLsbD_setWidth, BitVec.getLsbD_ushiftRight,
    getLsbD_joined fits shape.bits_pos _ (by omega), div, mod, shape.lanes_eq,
      shape.getLsbD_and_mask]
  simp [small, lt]

/-- A lane as a slot of the type that lanes of the shape have outside a vector. -/
def widen (shape : LaneShape) (signed : Bool) (l : BitVec shape.laneBits) : Slot :=
  if signed then (l.signExtend (8 * shape.scalarTy.byteSize)).setWidth 128 else l.setWidth 128

theorem extract_eq (signed : Bool) (lt : i < shape.lanes) (v : Slot) :
    shape.extract signed i v = shape.widen signed (lane shape.laneBits v i) := by
  have raw : (v >>> shape.shift i).setWidth 64 &&& laneMask shape.laneBits =
      (lane shape.laneBits v i).setWidth 64 := by
    rw [shape.shift_of_lt lt]
    exact shape.laneWord_eq v i
  unfold extract widen
  rw [raw]
  generalize lane shape.laneBits v i = l
  have wide : Slot.of64 (l.setWidth 64) = l.setWidth 128 := by
    have := shape.bits_le
    refine BitVec.eq_of_getLsbD_eq fun k lt => ?_
    rw [Slot.of64, BitVec.getLsbD_setWidth, BitVec.getLsbD_setWidth, BitVec.getLsbD_setWidth]
    by_cases small : k < 64
    · simp [small]
    · simp [small, BitVec.getLsbD_of_ge l k (by omega)]
  have back : (l.setWidth 64).setWidth shape.laneBits = l := by
    rw [BitVec.setWidth_setWidth_of_le _ shape.bits_le, BitVec.setWidth_eq]
  cases signed with
  | false => cases shape <;> exact wide
  | true =>
    cases shape with
    | i8x16 | i16x8 => exact congrArg (fun x => Slot.of32 (x.signExtend 32)) back
    | _ => exact wide.trans (congrArg (BitVec.setWidth 128) (BitVec.signExtend_eq l).symm)

theorem lane_replace {j : Nat} (lt : i < shape.lanes) (lt' : j < shape.lanes) (v x : Slot) :
    lane shape.laneBits (shape.replace i v x) j = if i = j then x.setWidth shape.laneBits
      else lane shape.laneBits v j := by
  have inside := shape.inside lt'
  refine BitVec.eq_of_getLsbD_eq fun k small => ?_
  simp only [lane, replace, shape.mask_eq, shape.shift_of_lt lt, BitVec.getLsbD_setWidth,
    BitVec.getLsbD_ushiftRight, BitVec.getLsbD_or,
    BitVec.getLsbD_and, BitVec.getLsbD_not, BitVec.getLsbD_shiftLeft, BitVec.getLsbD_allOnes,
    show j * shape.laneBits + k < 128 by omega, small, decide_true, Bool.true_and]
  rcases Nat.lt_trichotomy i j with less | rfl | more
  · have apart : i * shape.laneBits + shape.laneBits ≤ j * shape.laneBits := by
      rw [← Nat.succ_mul]
      exact Nat.mul_le_mul_right _ less
    simp [Nat.ne_of_lt less, small,
      show ¬ j * shape.laneBits + k - i * shape.laneBits < shape.laneBits by omega]
  · have := shape.bits_le
    simp [small, show k < 64 by omega, show k < 128 by omega,
      show ¬ i * shape.laneBits + k < i * shape.laneBits by omega]
  · have apart : j * shape.laneBits + shape.laneBits ≤ i * shape.laneBits := by
      rw [← Nat.succ_mul]
      exact Nat.mul_le_mul_right _ more
    simp [Nat.ne_of_gt more, small, show j * shape.laneBits + k < i * shape.laneBits by omega]

theorem lane_splat (lt : i < shape.lanes) (x : Slot) :
    lane shape.laneBits (shape.splat x) i = x.setWidth shape.laneBits := by
  rw [splat, mapLanes, shape.lane_joinLanes _ lt, shape.and_mask,
    BitVec.setWidth_setWidth_of_le _ shape.bits_le,
    BitVec.setWidth_eq, BitVec.setWidth_setWidth_of_le _ shape.bits_le]

theorem extract_replace (signed : Bool) {j : Nat} (lt : i < shape.lanes) (lt' : j < shape.lanes)
    (v x : Slot) : shape.extract signed j (shape.replace i v x) =
      if i = j then shape.widen signed (x.setWidth shape.laneBits)
        else shape.extract signed j v := by
  rw [shape.extract_eq signed lt', shape.extract_eq signed lt', shape.lane_replace lt lt']
  split <;> rfl

end LaneShape

/-! ### Bytes that are picked -/

theorem lane_pick {source : List (BitVec 8)} (fits : places.length ≤ 16) {p : Nat}
    (at' : places[i]? = some p) : lane 8 (pick source places) i = source.getD p 0 := by
  refine lane_ofLanes (by simp; omega) ?_
  simp [at']

theorem bytes_getD (v : Slot) (p : Nat) : (bytes v).getD p 0 = if p < 16 then lane 8 v p
    else 0 := by
  split <;> simp [bytes, *]

theorem lane_swizzle (a b : Slot) (lt : i < 16) : lane 8 (swizzle a b) i =
    if (lane 8 b i).toNat < 16 then lane 8 a (lane 8 b i).toNat else 0 := by
  rw [swizzle, lane_pick (p := (lane 8 b i).toNat) (by simp [bytes]) (by simp [bytes, lt]),
    bytes_getD]

theorem lane_shuffle (a b : Slot) (fits : places.length ≤ 16) {p : Nat}
    (at' : places[i]? = some p) :
    lane 8 (shuffle a b places) i = if p < 16 then lane 8 a p else if p < 32 then lane 8 b (p - 16)
      else 0 := by
  rw [shuffle, lane_pick fits at']
  have size (v : Slot) : (bytes v).length = 16 := by simp [bytes]
  split
  · next first => rw [getD_eq_getElem?_getD, getElem?_append_left (by rwa [size]),
      ← getD_eq_getElem?_getD,
      bytes_getD, if_pos first]
  · next second =>
    rw [getD_eq_getElem?_getD, getElem?_append_right (by rw [size]; omega), ← getD_eq_getElem?_getD,
      bytes_getD, size]
    simp only [show p - 16 < 16 ↔ p < 32 by omega]

/-! ### Arithmetic -/

/-- What an operation on vectors does in each lane. -/
inductive LaneOp
  | add | sub | mul | eq

namespace LaneOp

/-- The operation on numbers of `bits` bits. -/
def scalar (bits x y : Nat) : LaneOp → Nat
  | .add => (x + y) % 2 ^ bits
  | .sub => (2 ^ bits - y + x) % 2 ^ bits
  | .mul => x * y % 2 ^ bits
  | .eq => if x = y then 2 ^ bits - 1 else 0

/-- The operation on words, as wide as they are. -/
def word (x y : BitVec 64) : LaneOp → BitVec 64
  | .add => x + y
  | .sub => x - y
  | .mul => x * y
  | .eq => allOnes (x == y)

/-- What is left of the operation on words in a lane is the operation on the numbers in the lanes.
-/
theorem toNat_word (f : LaneOp) (x y : BitVec bits) (le : bits ≤ 64) :
    ((f.word (x.setWidth 64) (y.setWidth 64)).setWidth bits).toNat =
      f.scalar bits x.toNat y.toNat := by
  have back (z : BitVec bits) : (z.setWidth 64).setWidth bits = z := by
    rw [BitVec.setWidth_setWidth_of_le _ le, BitVec.setWidth_eq]
  cases f with
  | add => rw [word, BitVec.setWidth_add _ _ le, back, back]; exact BitVec.toNat_add x y
  | sub =>
    rw [word, BitVec.sub_eq_add_neg, BitVec.setWidth_add _ _ le,
      BitVec.setWidth_neg_of_le le, back, back,
      ← BitVec.sub_eq_add_neg]
    exact BitVec.toNat_sub x y
  | mul => rw [word, BitVec.setWidth_mul _ _ le, back, back]; exact BitVec.toNat_mul x y
  | eq =>
    have same : (x.setWidth 64 == y.setWidth 64) = decide (x.toNat = y.toNat) := by
      rw [Bool.eq_iff_iff, beq_iff_eq, decide_eq_true_eq]
      constructor
      · intro is
        rw [← back x, is, back y]
      · intro is
        rw [BitVec.eq_of_toNat_eq is]
    rw [word, scalar, same, allOnes]
    by_cases is : x.toNat = y.toNat
    · have ones : (BitVec.allOnes 64).setWidth bits = BitVec.allOnes bits := by
        refine BitVec.eq_of_getLsbD_eq fun k lt => ?_
        rw [BitVec.getLsbD_setWidth, BitVec.getLsbD_allOnes, BitVec.getLsbD_allOnes]
        simp [lt, Nat.lt_of_lt_of_le lt le]
      rw [if_pos is, if_pos (decide_eq_true is), ones, BitVec.toNat_allOnes]
    · rw [if_neg is, if_neg (by simpa using is)]
      simp

end LaneOp

/-- The integer operations on vectors: the lanes, and what is done in each. -/
def BinaryOp.lanewise? : BinaryOp → Option (LaneShape × LaneOp)
  | .i8x16Add => some (.i8x16, .add)
  | .i8x16Sub => some (.i8x16, .sub)
  | .i8x16Eq => some (.i8x16, .eq)
  | .i16x8Add => some (.i16x8, .add)
  | .i16x8Sub => some (.i16x8, .sub)
  | .i16x8Mul => some (.i16x8, .mul)
  | .i32x4Add => some (.i32x4, .add)
  | .i32x4Sub => some (.i32x4, .sub)
  | .i32x4Mul => some (.i32x4, .mul)
  | .i32x4Eq => some (.i32x4, .eq)
  | .i64x2Add => some (.i64x2, .add)
  | .i64x2Sub => some (.i64x2, .sub)
  | .i64x2Mul => some (.i64x2, .mul)
  | _ => none

def UnaryOp.negates? : UnaryOp → Option LaneShape
  | .i8x16Neg => some .i8x16
  | .i32x4Neg => some .i32x4
  | _ => none

theorem BinaryOp.eval_lanewise {op : BinaryOp} {f : LaneOp} (is : op.lanewise? = some (shape, f))
    (a b : Slot) : op.eval a b = .ok (zipLanes shape.laneBits (fun x y => f.word x y) a b) := by
  unfold lanewise? at is
  split at is <;> cases is <;> rfl

theorem UnaryOp.eval_negates {op : UnaryOp} (is : op.negates? = some shape) (a : Slot) :
    op.eval a = mapLanes shape.laneBits (- ·) a := by
  unfold negates? at is
  split at is <;> cases is <;> rfl

/-- **Operations on vectors act lane by lane.** -/
theorem vectors_act_lanewise : (∀ (op : BinaryOp) shape f,
    op.lanewise? = some (shape, f) → ∀ a b, ∃ r, op.eval a b = .ok r ∧
      ∀ i < shape.lanes, (lane shape.laneBits r i).toNat =
        f.scalar shape.laneBits (lane shape.laneBits a i).toNat (lane shape.laneBits b i).toNat) ∧
    (∀ (op : UnaryOp) shape, op.negates? = some shape → ∀ a, ∀ i < shape.lanes,
      (lane shape.laneBits (op.eval a) i).toNat =
        (2 ^ shape.laneBits - (lane shape.laneBits a i).toNat) % 2 ^ shape.laneBits) ∧
    (∀ (shape : LaneShape) signed v x,
      ∀ i < shape.lanes, ∀ j < shape.lanes, shape.extract signed j (shape.replace i v x) =
        if i = j then shape.widen signed (x.setWidth shape.laneBits)
          else shape.extract signed j v) ∧
    (∀ (shape : LaneShape) x,
      ∀ i < shape.lanes, lane shape.laneBits (shape.splat x) i = x.setWidth shape.laneBits) ∧
    (∀ a b places, places.length = 16 → ∀ i p, places[i]? = some p → lane 8 (shuffle a b places) i =
      if p < 16 then lane 8 a p else if p < 32 then lane 8 b (p - 16) else 0) ∧
    ∀ a b, ∃ r, BinaryOp.i8x16Swizzle.eval a b = .ok r ∧ ∀ i < 16, lane 8 r i =
      if (lane 8 b i).toNat < 16 then lane 8 a (lane 8 b i).toNat else 0 := by
  refine ⟨fun op shape f is a b => ⟨_, BinaryOp.eval_lanewise is a b, fun i lt => ?_⟩,
    fun op shape is a i lt => ?_,
    fun shape signed v x i lt j lt' => shape.extract_replace signed lt lt' v x, fun shape x i lt =>
      shape.lane_splat lt x,
    fun a b places sixteen i p at' => lane_shuffle a b (Nat.le_of_eq sixteen) at', fun a b =>
      ⟨_, rfl, fun i lt => lane_swizzle a b lt⟩⟩
  · rw [zipLanes, shape.lane_joinLanes _ lt, shape.laneWord_eq, shape.laneWord_eq,
      f.toNat_word _ _ shape.bits_le]
  · rw [UnaryOp.eval_negates is, mapLanes, shape.lane_joinLanes _ lt, shape.laneWord_eq,
      BitVec.setWidth_neg_of_le shape.bits_le, BitVec.setWidth_setWidth_of_le _ shape.bits_le,
        BitVec.setWidth_eq,
      BitVec.toNat_neg]

end Wasmill.Ssa
