import Wasmill.Image
import Wasmill.Proofs.Steps
import Wasmill.Proofs.Code.Encoding

/-! What restoring takes apart.

`read_ok`: bytes are restored as a module exactly if they are the header for the branch range and
the seven blocks in their order, each with its tag and its length and nothing after the last, if the
content of each block decodes to its part of the module, and if the module passes the checks. -/
namespace Wasmill
open List
variable {bytes rest : List UInt8}

/-! ### Bytes -/

/-- Turning bytes into a list goes through them in order. -/
theorem ByteArray.toList_eq_data (bytes : ByteArray) : bytes.toList = bytes.data.toList := by
  have loop :
      ∀ i acc, ByteArray.toList.loop bytes i acc = acc.reverse ++ bytes.data.toList.drop i := by
    intro i acc
    induction i, acc using ByteArray.toList.loop.induct bytes with
    | case1 i acc lt ih =>
      have lt' : i < bytes.data.toList.length := lt
      have here : bytes.get! i = bytes.data.toList[i] := by
        show bytes.data[i]! = _
        rw [getElem!_pos bytes.data i lt, Array.getElem_toList]
      rw [ByteArray.toList.loop.eq_1, if_pos lt, ih, drop_eq_getElem_cons lt', here, reverse_cons,
        append_assoc]
      rfl
    | case2 i acc ge =>
      have ge' : bytes.data.toList.length ≤ i := Nat.le_of_not_lt ge
      rw [ByteArray.toList.loop.eq_1, if_neg ge, drop_eq_nil_of_le ge', append_nil]
  exact loop 0 []

namespace Image
open Code Steps

/-! ### Numbers -/

theorem fromLe_cons (b : UInt8) (bytes : List UInt8) :
    Codec.fromLe (b :: bytes) = b.toNat + 256 * Codec.fromLe bytes := rfl

/-- Digits are the digits of their number. -/
theorem le_fromLe (bytes : List UInt8) : le bytes.length (Codec.fromLe bytes) = bytes := by
  induction bytes with
  | nil => rfl
  | cons b bytes ih =>
    have small : b.toNat < 256 := b.toNat_lt
    have low : UInt8.ofNat (b.toNat + 256 * Codec.fromLe bytes) = b := by
      apply UInt8.toNat_inj.1
      rw [UInt8.toNat_ofNat']
      omega
    have high : (b.toNat + 256 * Codec.fromLe bytes) / 256 = Codec.fromLe bytes := by omega
    rw [length_cons, fromLe_cons, le, low, high, ih]

theorem fromLe_le (n value : Nat) : Codec.fromLe (le n value) = value % Nat.pow 256 n := by
  induction n generalizing value with
  | zero => exact (Nat.mod_one value).symm
  | succ n ih =>
    have split : value % (256 * Nat.pow 256 n) =
        value % 256 + 256 * (value / 256 % Nat.pow 256 n) := Nat.mod_mul
    have next : Nat.pow 256 (n + 1) = 256 * Nat.pow 256 n := Nat.pow_succ'
    rw [le, fromLe_cons, ih, UInt8.toNat_ofNat', next, split]

theorem fromLe_lt (bytes : List UInt8) : Codec.fromLe bytes < Nat.pow 256 bytes.length := by
  have same := fromLe_le bytes.length (Codec.fromLe bytes)
  rw [le_fromLe] at same
  rw [same]
  exact Nat.mod_lt _ (Nat.pow_pos (by decide))

/-! ### The steps of restoring -/

theorem take_iff {n : Nat} {taken : List UInt8} :
    Codec.take n bytes = some (taken, rest) ↔ bytes = taken ++ rest ∧ taken.length = n := by
  unfold Codec.take
  constructor
  · intro h
    split at h
    · rename_i enough
      rw [splitAt_eq] at h
      cases h
      exact ⟨(take_append_drop n bytes).symm, length_take_of_le enough⟩
    · cases h
  · rintro ⟨rfl, rfl⟩
    rw [if_pos (by simp), splitAt_eq, take_left, drop_left]

theorem restore_take_ok {n : Nat} {taken : List UInt8} :
    Restore.take n bytes = .ok (taken, rest) ↔ bytes = taken ++ rest ∧ taken.length = n := by
  rw [← take_iff]
  unfold Restore.take
  cases Codec.take n bytes <;> simp

/-- A number is read from the digits it is written with. -/
theorem restore_number_ok {n value : Nat} :
    Restore.number n bytes = .ok (value, rest) ↔ value < Nat.pow 256 n ∧
      bytes = le n value ++ rest := by
  simp only [Restore.number, bind_eq_ok, restore_take_ok, pure_apply, Except.ok.injEq,
    Prod.mk.injEq]
  constructor
  · rintro ⟨digits, _, ⟨rfl, rfl⟩, rfl, rfl⟩
    exact ⟨fromLe_lt digits, by rw [le_fromLe]⟩
  · rintro ⟨small, rfl⟩
    exact ⟨le n value, rest, ⟨rfl, le_length n value⟩,
      by rw [fromLe_le, Nat.mod_eq_of_lt small], rfl⟩

theorem Tag.toByte_lt (tag : Tag) : tag.toByte < 7 := by cases tag <;> decide

/-- A block is read where it stands. -/
theorem restore_block_ok {tag : Tag} {content : List UInt8} :
    Restore.block tag bytes = .ok (content, rest) ↔ content.length < UInt64.size ∧
      bytes = block tag content ++ rest := by
  simp only [Restore.block, throw_bind, bind_eq_ok, unless_eq_ok, restore_number_ok,
    restore_take_ok, Classical.not_not]
  constructor
  · rintro ⟨_, _, ⟨-, rfl⟩, rfl, _, _, ⟨small, rfl⟩, rfl, rfl⟩
    exact ⟨small, by simp only [block, u8, append_assoc]⟩
  · rintro ⟨small, rfl⟩
    refine ⟨tag.toByte, _, ⟨Nat.lt_trans tag.toByte_lt (by decide), ?_⟩, rfl, content.length, _,
      ⟨small, rfl⟩, rfl, rfl⟩
    simp only [block, u8, append_assoc]

theorem restore_decoded_ok {α : Type} {tag : Tag} {c : Codec α} {a : α} :
    Restore.decoded tag c bytes = .ok (a, rest) ↔
      ∃ content, content.length < UInt64.size ∧ bytes = block tag content ++ rest ∧
        c.decode content = some a := by
  simp only [Restore.decoded, bind_eq_ok, restore_block_ok]
  refine exists_congr fun content => ?_
  cases c.decode content with
  | none => simp [throw_apply]
  | some a' =>
    constructor
    · rintro ⟨_, ⟨small, rfl⟩, ⟨⟩⟩
      exact ⟨small, rfl, rfl⟩
    · rintro ⟨small, rfl, ⟨⟩⟩
      exact ⟨rest, ⟨small, rfl⟩, rfl⟩

/-- What stands before the blocks. -/
def head (branchRange : Nat) : List UInt8 := magic ++ u32 version ++ u32 branchRange

theorem head_length (branchRange : Nat) : (head branchRange).length = 12 := by
  simp [head, magic]

theorem restore_header_ok {branchRange : Nat} :
    Restore.header branchRange bytes = .ok ((), rest) ↔ branchRange < UInt32.size ∧
      bytes = head branchRange ++ rest := by
  simp only [Restore.header, throw_bind, bind_eq_ok, unless_eq_ok, restore_number_ok,
    restore_take_ok, Classical.not_not]
  constructor
  · rintro ⟨_, _, ⟨rfl, -⟩, rfl, _, _, ⟨-, rfl⟩, rfl, _, _, ⟨small, rfl⟩, rfl, ⟨⟩⟩
    exact ⟨small, by simp only [head, u32, append_assoc]⟩
  · rintro ⟨small, rfl⟩
    refine ⟨magic, _, ⟨?_, rfl⟩, rfl, version, _, ⟨by decide, rfl⟩, rfl, branchRange, rest,
      ⟨small, rfl⟩, rfl, rfl⟩
    simp only [head, u32, append_assoc]

/-! ### Whole images -/

/-- The contents of the blocks, one for each tag, are the parts of the module. -/
structure Decodes (contents : Tag → List UInt8) (m : Module) : Prop where
  small : ∀ tag, (contents tag).length < UInt64.size
  metadata : ∃ m₀, metadata.decode (contents .metadata) = some m₀ ∧
    m = { m₀ with
      code := m.code, link := m.link, imports := m.imports, exports := m.exports, data := m.data
      bytecode := m.bytecode }
  code : m.code = ⟨(contents .code).toArray⟩
  link : linkData.decode (contents .linkData) = some m.link
  imports : funcExit.array.decode (contents .imports) = some m.imports
  exports : exports.decode (contents .exports) = some m.exports
  data : dataSegment.array.decode (contents .dataSegments) = some m.data
  bytecode : Codec.bytes.option.decode (contents .bytecode) = some m.bytecode

/-- The blocks with these contents, in their order. -/
def blocks (contents : Tag → List UInt8) : List UInt8 :=
  Tag.all.flatMap fun tag => block tag (contents tag)

theorem restore_module_ok {m : Module} :
    Restore.module bytes = .ok (m, rest) ↔ rest = [] ∧ ∃ contents, bytes = blocks contents ∧
      Decodes contents m := by
  simp only [Restore.module, throw_bind, bind_eq_ok, unless_eq_ok, restore_decoded_ok,
    restore_block_ok, get_apply, pure_apply]
  constructor
  · rintro ⟨m₀, _, ⟨c₀, small₀, rfl, is₀⟩, c₁, _, ⟨small₁, rfl⟩, link, _,
      ⟨c₂, small₂, rfl, is₂⟩, imports, _,
      ⟨c₃, small₃, rfl, is₃⟩, exports', _, ⟨c₄, small₄, rfl, is₄⟩, data, _,
      ⟨c₅, small₅, rfl, is₅⟩, bytecode, _,
      ⟨c₆, small₆, rfl, is₆⟩, _, _, ⟨⟩, empty, ⟨⟩⟩
    obtain rfl : rest = [] := by simpa using empty
    refine ⟨rfl, Tag.rec c₀ c₁ c₂ c₃ c₄ c₅ c₆, rfl, fun tag => ?_, ⟨m₀, is₀, rfl⟩, rfl,
      is₂, is₃, is₄, is₅, is₆⟩
    cases tag <;> assumption
  · rintro ⟨rfl, contents, rfl, h⟩
    obtain ⟨m₀, is₀, whole⟩ := h.metadata
    refine ⟨m₀, _, ⟨_, h.small .metadata, rfl, is₀⟩, _, _, ⟨h.small .code, rfl⟩, _, _,
      ⟨_, h.small .linkData, rfl, h.link⟩,
      _, _, ⟨_, h.small .imports, rfl, h.imports⟩, _, _, ⟨_, h.small .exports, rfl, h.exports⟩,
      _, _, ⟨_, h.small .dataSegments, rfl, h.data⟩, _, [], ⟨_, h.small .bytecode, rfl, h.bytecode⟩,
      _, _, rfl, by simp, ?_⟩
    rw [← h.code, ← whole]

theorem read_ok {config : Config} {m : Module} :
    read config bytes = .ok m ↔ config.maxBranchRange < UInt32.size ∧
      ∃ contents, bytes = head config.maxBranchRange ++ blocks contents ∧ Decodes contents m ∧
        check config.interruptMode m = .ok () := by
  constructor
  · intro h
    obtain ⟨⟨m', rest⟩, restored, h⟩ := except_ok h
    obtain ⟨_, checked, h⟩ := except_ok h
    cases h
    obtain ⟨_, _, first, second⟩ := bind_ok restored
    obtain ⟨small, rfl⟩ := restore_header_ok.1 first
    obtain ⟨rfl, contents, rfl, decodes⟩ := restore_module_ok.1 second
    exact ⟨small, contents, rfl, decodes, checked⟩
  · rintro ⟨small, contents, rfl, decodes, checked⟩
    have both : (Restore.header config.maxBranchRange >>= fun _ => Restore.module)
        (head config.maxBranchRange ++ blocks contents) = .ok (m, []) :=
      bind_eq_ok.2 ⟨_, _, restore_header_ok.2 ⟨small, rfl⟩,
        restore_module_ok.2 ⟨rfl, contents, rfl, decodes⟩⟩
    unfold read
    show Except.bind ((Restore.header config.maxBranchRange >>= fun _ => Restore.module) _) _ = _
    rw [both]
    show Except.bind (check config.interruptMode m) _ = _
    rw [checked]
    rfl

end Image
end Wasmill
