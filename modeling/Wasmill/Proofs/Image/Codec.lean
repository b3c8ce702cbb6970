import Wasmill.Proofs.Image.Blocks

/-! Codecs read back what they write.

`Faithful c P`: values that satisfy `P` are read back from what is written for them, whatever
follows. Lists, strings and bytes are written with their length in 64 bits, so what is written must
not be longer than that; since each element takes at least a byte, the length of the whole bounds
the length of every part. -/
namespace Wasmill.Image.Codec
open Code List Option
variable {n width bound widest : Nat}

class Faithful {α : Type} (c : Codec α) (P : outParam (α → Prop)) : Prop where
  back : ∀ a, P a → (c.write a).length < UInt64.size →
    ∀ rest, c.read (c.write a ++ rest) = some (a, rest)
  some' : ∀ a, 0 < (c.write a).length

variable {α β : Type} {c : Codec α} {d : Codec β} {P : α → Prop} {R : β → Prop}

/-! ### Numbers -/

theorem take_le (n value : Nat) (rest : List UInt8) :
    take n (le n value ++ rest) = some (le n value, rest) :=
  take_iff.2 ⟨rfl, le_length n value⟩

/-- After a mark comes a number in as many bytes as the mark says. -/
theorem readNat_marked (mark : UInt8) (width : Nat) (marks : ¬ mark < 251)
    (is : 1 <<< (mark.toNat - 250) = width)
    (wide : width ≤ widest) (fits : n < Nat.pow 256 width) (rest : List UInt8) :
    readNat widest (mark :: le width n ++ rest) = some (n, rest) := by
  rw [cons_append, readNat, if_neg marks]
  dsimp only
  rw [is, if_neg (Nat.not_lt.2 wide), take_le, map_some, fromLe_le, Nat.mod_eq_of_lt fits]

theorem readNat_writeNat (wide : widest = 8 ∨ widest = 16) (fits : n < Nat.pow 256 widest)
    (rest : List UInt8) :
    readNat widest (writeNat n ++ rest) = some (n, rest) := by
  have eight : 8 ≤ widest := by omega
  unfold writeNat
  split
  · rename_i small
    have same : (UInt8.ofNat n).toNat = n :=
      UInt8.toNat_ofNat_of_lt' (Nat.lt_trans small (by decide))
    have less : UInt8.ofNat n < 251 := by
      rw [UInt8.lt_iff_toNat_lt, same]
      exact small
    rw [cons_append, readNat, if_pos less, same]
    rfl
  split
  · exact readNat_marked 251 2 (by decide) (by decide) (by omega) ‹_› rest
  split
  · exact readNat_marked 252 4 (by decide) (by decide) (by omega) ‹_› rest
  split
  · exact readNat_marked 253 8 (by decide) (by decide) (by omega) ‹_› rest
  · rename_i large
    have sixteen : widest = 16 := by
      rcases wide with rfl | rfl
      · exact absurd fits large
      · rfl
    subst sixteen
    exact readNat_marked 254 16 (by decide) (by decide) (Nat.le_refl _) fits rest

theorem writeNat_pos (n : Nat) : 0 < (writeNat n).length := by
  unfold writeNat
  repeat' split
  all_goals exact Nat.succ_pos _

theorem readNat_pow (small : bound ≤ UInt64.size) (lt : n < bound) (rest : List UInt8) :
    readNat 8 (writeNat n ++ rest) = some (n, rest) :=
  readNat_writeNat (.inl rfl) (Nat.lt_of_lt_of_le lt small) rest

theorem faithful_natBelow (small : bound ≤ UInt64.size) :
    Faithful (natBelow bound 8) (· < bound) where
  back n lt _ rest := by
    show (readNat 8 (writeNat n ++ rest)).filter _ = _
    rw [readNat_pow small lt]
    simp [Option.filter, lt]
  some' := writeNat_pos

instance faithful_u32 : Faithful u32 (· < UInt32.size) := faithful_natBelow (by decide)

instance faithful_u64 : Faithful u64 (· < UInt64.size) := faithful_natBelow (Nat.le_refl _)

/-- Cases are numbered from zero on. -/
theorem tag_back (small : n < 251) (rest : List UInt8) :
    tag.read (tag.write n ++ rest) = some (n, rest) := by
  have short : (tag.write n).length < UInt64.size := by
    show (writeNat n).length < _
    rw [writeNat, if_pos small]
    exact show 1 < UInt64.size by decide
  exact faithful_u32.back n (Nat.lt_trans small (by decide)) short rest

theorem append_pos {first : List UInt8} (some' : 0 < first.length) (more : List UInt8) :
    0 < (first ++ more).length := by
  rw [length_append]
  exact Nat.add_pos_left some' _

theorem tag_pos (n : Nat) (more : List UInt8) : 0 < (tag.write n ++ more).length :=
  append_pos (writeNat_pos n) more

theorem Faithful.tagged (h : Faithful c P) (small : n < 251) {a : α} (p : P a)
    (short : (tag.write n ++ c.write a).length < UInt64.size) (rest : List UInt8) :
    tag.read (tag.write n ++ (c.write a ++ rest)) =
      some (n, c.write a ++ rest) ∧ c.read (c.write a ++ rest) = some (a, rest) := by
  rw [length_append] at short
  exact ⟨tag_back small _, h.back a p (by omega) rest⟩

theorem faithful_word (wide : widest = 8 ∨ widest = 16) (fits : width ≤ 8 * widest) :
    Faithful (word width widest) fun _ => True where
  back v _ _ rest := by
    have small : v.toNat < 1 <<< width := by
      rw [Nat.one_shiftLeft]
      exact v.isLt
    have inside : v.toNat < Nat.pow 256 widest := by
      have : (256 : Nat) ^ widest = 2 ^ (8 * widest) := by rw [Nat.pow_mul]
      show v.toNat < 256 ^ widest
      rw [this]
      exact Nat.lt_of_lt_of_le v.isLt (Nat.pow_le_pow_right (by decide) fits)
    show ((readNat widest (writeNat v.toNat ++ rest)).filter _).map _ = _
    rw [readNat_writeNat wide inside]
    simp [Option.filter, small]
  some' v := writeNat_pos v.toNat

theorem fromAlternate_alternate (n : Int) : fromAlternate (alternate n) = n := by
  unfold fromAlternate alternate
  split <;> split <;> omega

theorem alternate_lt (some' : 0 < width) (v : BitVec width) : alternate v.toInt < 1 <<< width := by
  have low := v.le_toInt
  have high : v.toInt < 2 ^ (width - 1) := BitVec.toInt_lt
  have double : (2 : Int) ^ width = 2 * 2 ^ (width - 1) := by
    obtain ⟨w, rfl⟩ := Nat.exists_eq_succ_of_ne_zero (Nat.ne_of_gt some')
    rw [Nat.succ_sub_one, Int.pow_succ, Int.mul_comm]
  have cast : ((2 ^ width : Nat) : Int) = 2 ^ width := by norm_cast
  rw [Nat.one_shiftLeft]
  unfold alternate
  split <;> omega

theorem faithful_signed (some' : 0 < width) (fits : width ≤ 64) :
    Faithful (signed width) fun _ => True where
  back v _ _ rest := by
    have small := alternate_lt some' v
    have inside : 1 <<< width ≤ UInt64.size := by
      rw [Nat.one_shiftLeft]
      exact Nat.pow_le_pow_right (by decide) fits
    show ((readNat 8 (writeNat (alternate v.toInt) ++ rest)).filter _).map _ = _
    rw [readNat_pow inside small]
    simp [Option.filter, small, fromAlternate_alternate]
  some' v := writeNat_pos (alternate v.toInt)

instance : Faithful bool fun _ => True where
  back b _ _ rest := by cases b <;> rfl
  some' _ := Nat.one_pos

/-! ### Combinations -/

theorem Faithful.via [h : Faithful c P] {wrap : α → β} {forget : β → α}
    (same : ∀ b, wrap (forget b) = b)
    (fits : ∀ b, R b → P (forget b)) : Faithful (c.via wrap forget) R where
  back b r short rest := by
    show (c.read (c.write (forget b) ++ rest)).map _ = _
    rw [h.back _ (fits b r) short, map_some]
    show some (wrap (forget b), rest) = _
    rw [same]
  some' b := h.some' (forget b)

instance [h : Faithful c P] [h' : Faithful d R] : Faithful (c.pair d) fun ab =>
    P ab.1 ∧ R ab.2 where
  back := by
    rintro ⟨a, b⟩ ⟨p, r⟩ short rest
    have short : (c.write a ++ d.write b).length < UInt64.size := short
    rw [length_append] at short
    show (do
      let (a, rest) ← c.read (c.write a ++ d.write b ++ rest)
      let (b, rest) ← d.read rest
      return ((a, b), rest)) = _
    simp [h.back a p (by omega), h'.back b r (by omega)]
  some' ab := append_pos (h.some' ab.1) _

instance [h : Faithful c P] : Faithful c.option fun o => ∀ a, o = some a → P a where
  back
    | none, _, _, rest => rfl
    | some a, p, short, rest => by
      show (c.read (c.write a ++ rest)).map _ = _
      rw [h.back a (p a rfl) (Nat.lt_of_succ_lt short)]
      rfl
  some'
    | none => Nat.one_pos
    | some _ => Nat.succ_pos _

theorem length_le_flatMap_write [h : Faithful c P] (as : List α) :
    as.length ≤ (as.flatMap c.write).length := by
  induction as with
  | nil => exact Nat.le_refl _
  | cons a as ih =>
    have := h.some' a
    rw [length_cons, flatMap_cons, length_append]
    omega

theorem Faithful.readMany [h : Faithful c P] {as : List α} (all : ∀ a ∈ as, P a)
    (short : (as.flatMap c.write).length < UInt64.size)
    (rest : List UInt8) : readMany c as.length (as.flatMap c.write ++ rest) = some (as, rest) := by
  induction as with
  | nil => rfl
  | cons a as ih =>
    rw [flatMap_cons, length_append] at short
    have first := h.back a (all a mem_cons_self) (by omega) (as.flatMap c.write ++ rest)
    have others := ih (fun a mem => all a (mem_cons_of_mem _ mem)) (by omega)
    simp [Codec.readMany, first, others]

instance [h : Faithful c P] : Faithful c.list fun as => ∀ a ∈ as, P a where
  back as all short rest := by
    have short : (writeNat as.length ++ as.flatMap c.write).length < UInt64.size := short
    rw [length_append] at short
    have count : as.length < UInt64.size :=
      Nat.lt_of_le_of_lt (length_le_flatMap_write (c := c) as) (by omega)
    have counted : u64.read (writeNat as.length ++ (as.flatMap c.write ++ rest)) = some (as.length,
        as.flatMap c.write ++ rest) :=
      faithful_u64.back as.length count (show (writeNat as.length).length < _ by omega) _
    show (do
      let (n, rest) ← u64.read (writeNat as.length ++ as.flatMap c.write ++ rest)
      Codec.readMany c n rest) = _
    simp [counted, h.readMany all (show (as.flatMap c.write).length < _ by omega) rest]
  some' as := append_pos (writeNat_pos as.length) _

instance [Faithful c P] : Faithful c.array fun as => ∀ a ∈ as.toList, P a :=
  .via (fun _ => Array.toArray_toList) fun _ fits => fits

/-! ### Bytes and text -/

instance faithful_bytes : Faithful bytes fun _ => True where
  back b _ short rest := by
    have short : (writeNat b.size ++ b.toList).length < UInt64.size := short
    have same : b.toList.length = b.size := by
      rw [ByteArray.toList_eq_data]
      rfl
    rw [length_append, same] at short
    have counted : u64.read (writeNat b.size ++ (b.toList ++ rest)) =
        some (b.size, b.toList ++ rest) :=
      faithful_u64.back b.size (show b.size < _ by omega)
        (show (writeNat b.size).length < _ by omega) _
    show (do
      let (n, rest) ← u64.read (writeNat b.size ++ b.toList ++ rest)
      let (content, rest) ← take n rest
      return ((⟨content.toArray⟩ : ByteArray), rest)) = _
    have taken : take b.size (b.toList ++ rest) = some (b.toList, rest) := take_iff.2 ⟨rfl, same⟩
    simp only [append_assoc, counted, taken, bind_eq_bind, bind_some, Option.pure_def]
    rw [ByteArray.toList_eq_data]
  some' b := append_pos (writeNat_pos b.size) _

instance : Faithful string fun _ => True where
  back s _ short rest := by
    show (do
      let (content, rest) ← bytes.read (bytes.write s.toUTF8 ++ rest)
      return (← String.fromUTF8? content, rest)) = _
    have valid : String.fromUTF8? s.toUTF8 = some s := by
      unfold String.fromUTF8?
      exact dif_pos s.isValidUTF8
    simp only [faithful_bytes.back _ trivial short, valid, bind_eq_bind, bind_some, Option.pure_def]
  some' s := faithful_bytes.some' s.toUTF8

/-- Nothing is left after what was written. -/
theorem Faithful.decode [h : Faithful c P] {a : α} (p : P a)
    (short : (c.write a).length < UInt64.size) :
    c.decode (c.write a) = some a := by
  have read := h.back a p short []
  rw [append_nil] at read
  unfold Codec.decode
  rw [read]

end Wasmill.Image.Codec
