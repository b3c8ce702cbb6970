import Mathlib.Data.List.NodupEquivFin
import Mathlib.Data.List.OfFn
import Mathlib.Logic.Equiv.Defs
import Wasmill.Proofs.Generator.History
import Wasmill.Proofs.Image.Blocks

/-! Images delimit themselves.

Bytes split in at most one way into a header and seven blocks, and an image that is restored is such
bytes, with the blocks in the order of their tags. So no image begins another one, and no other
order of its blocks is restored. -/
namespace Wasmill
open List Wasmill.Module
variable {config : Config} {m : Module} {bytes : ByteArray}
namespace Image
open Code
variable {rest content : List UInt8} {tag : Tag}

/-- A block of any tag. -/
def IsBlock (bytes : List UInt8) : Prop :=
  ∃ (mark : UInt8) (content : List UInt8), content.length < UInt64.size ∧
    bytes = mark :: (le 8 content.length ++ content)

/-- The bytes are a header and these blocks. -/
structure Splits (bytes header : List UInt8) (parts : Fin 7 → List UInt8) : Prop where
  twelve : header.length = 12
  blocks : ∀ i, IsBlock (parts i)
  whole : bytes = header ++ (List.ofFn parts).flatten

theorem block_eq (tag : Tag) (content : List UInt8) :
    block tag content = UInt8.ofNat tag.toByte :: (le 8 content.length ++ content) := rfl

theorem isBlock_block (small : content.length < UInt64.size) : IsBlock (block tag content) :=
  ⟨UInt8.ofNat tag.toByte, content, small, rfl⟩

theorem block_tag {tag' : Tag} {content' : List UInt8}
    (same : block tag content = block tag' content') : tag = tag' := by
  rw [block_eq, block_eq] at same
  have marks := (List.cons.inj same).1
  revert marks
  cases tag <;> cases tag' <;> decide

/-- The length of a block says where it ends. -/
theorem IsBlock.append_inj {a b r s : List UInt8} (ha : IsBlock a) (hb : IsBlock b)
    (same : a ++ r = b ++ s) : a = b ∧ r = s := by
  obtain ⟨mark, content, small, rfl⟩ := ha
  obtain ⟨mark', content', small', rfl⟩ := hb
  simp only [List.cons_append, List.append_assoc, List.cons.injEq] at same
  obtain ⟨rfl, same⟩ := same
  obtain ⟨lengths, same⟩ := List.append_inj same (by simp)
  have count : content.length = content'.length := by
    have read := congrArg Codec.fromLe lengths
    rw [fromLe_le, fromLe_le] at read
    rwa [Nat.mod_eq_of_lt small, Nat.mod_eq_of_lt small'] at read
  obtain ⟨rfl, rfl⟩ := List.append_inj same count
  exact ⟨rfl, rfl⟩

theorem flatten_append_inj {as bs : List (List UInt8)} {r s : List UInt8} (ha : ∀ a ∈ as, IsBlock a)
    (hb : ∀ b ∈ bs, IsBlock b)
    (count : as.length = bs.length) (same : as.flatten ++ r = bs.flatten ++ s) :
    as = bs ∧ r = s := by
  induction as generalizing bs with
  | nil =>
    obtain rfl := length_eq_zero_iff.1 count.symm
    exact ⟨rfl, same⟩
  | cons a as ih =>
    cases bs with
    | nil => cases count
    | cons b bs =>
      rw [flatten_cons, flatten_cons, List.append_assoc, List.append_assoc] at same
      obtain ⟨rfl, others⟩ := (ha a mem_cons_self).append_inj (hb b mem_cons_self) same
      obtain ⟨rfl, last⟩ :=
        ih (fun a mem => ha a (mem_cons_of_mem _ mem)) (fun b mem => hb b (mem_cons_of_mem _ mem))
        (Nat.succ.inj count) others
      exact ⟨rfl, last⟩

variable {bytes header header' : List UInt8} {parts parts' : Fin 7 → List UInt8}

/-- Where one split ends, any other ends too. -/
theorem Splits.unique (h : Splits bytes header parts) (h' : Splits (bytes ++ rest) header' parts') :
    parts = parts' ∧ rest = [] := by
  have same : header ++ ((List.ofFn parts).flatten ++ rest) =
      header' ++ ((List.ofFn parts').flatten ++ []) := by
    rw [append_nil, ← h'.whole, h.whole, List.append_assoc]
  obtain ⟨_, same⟩ := List.append_inj same (h.twelve.trans h'.twelve.symm)
  obtain ⟨all, left⟩ := flatten_append_inj (forall_mem_ofFn_iff.2 h.blocks)
    (forall_mem_ofFn_iff.2 h'.blocks) (by simp) same
  exact ⟨ofFn_injective all, left⟩

/-- The tag of the block at a place. -/
def tagAt : Fin 7 → Tag := Tag.all.get

theorem tagAt_inj {i j : Fin 7} (same : tagAt i = tagAt j) : i = j := by
  have once : Tag.all.Nodup := by decide
  exact nodup_iff_injective_get.1 once same

variable (h : read config bytes = .ok m)
include h

/-- What is restored splits into blocks, in the order of their tags. -/
theorem splits_of_read : ∃ contents : Tag → List UInt8,
      Splits bytes (head config.maxBranchRange) fun i => block (tagAt i) (contents (tagAt i)) := by
  obtain ⟨_, contents, rfl, decodes, _⟩ := read_ok.1 h
  refine ⟨contents, head_length _, fun i => isBlock_block (decodes.small _), ?_⟩
  have listed : List.ofFn (fun i => block (tagAt i) (contents (tagAt i))) = Tag.all.map fun tag =>
      block tag (contents tag) := by
    rw [← ofFn_get Tag.all, map_ofFn]
    rfl
  rw [listed, ← flatMap_def]
  rfl

theorem parts_of_read (splits : Splits bytes header parts) (i : Fin 7) :
    ∃ content, parts i = block (tagAt i) content := by
  obtain ⟨contents, own⟩ := splits_of_read h
  rw [← append_nil bytes] at own
  obtain ⟨rfl, _⟩ := splits.unique own
  exact ⟨_, rfl⟩

theorem rest_of_read {m' : Module} (h' : read config (bytes ++ rest) = .ok m') : rest = [] := by
  obtain ⟨_, shorter⟩ := splits_of_read h
  obtain ⟨_, longer⟩ := splits_of_read h'
  exact (shorter.unique longer).2

theorem order_of_read {m' : Module} (splits : Splits bytes header parts)
    {σ : Equiv.Perm (Fin 7)}
    (h' : read config (header ++ (List.ofFn (parts ∘ σ)).flatten) = .ok m') : σ = .refl _ := by
  have splits' : Splits _ header (parts ∘ σ) := ⟨splits.twelve, fun i => splits.blocks (σ i), rfl⟩
  refine Equiv.ext fun i => ?_
  obtain ⟨content, is⟩ := parts_of_read h splits (σ i)
  obtain ⟨content', is'⟩ := parts_of_read h' splits' i
  exact tagAt_inj (block_tag (is.symm.trans is'))

end Image

/-- The bytes are refused as an image. -/
def Module.Refused (config : Config) (bytes : ByteArray) : Prop :=
  ∃ fault, Module.ofImage config bytes = .error (.image fault)

theorem Module.ofImage_ok : Module.ofImage config bytes = .ok m ↔
    Image.read config bytes.data.toList = .ok m := by
  unfold Module.ofImage
  rw [ByteArray.toList_eq_data]
  cases Image.read config bytes.data.toList <;> simp [Except.mapError]

theorem Module.ofImage_or_refused (config : Config) (bytes : ByteArray) :
    (∃ m, Module.ofImage config bytes = .ok m) ∨ Module.Refused config bytes := by
  unfold Module.Refused Module.ofImage
  cases Image.read config bytes.toList with
  | ok m => exact .inl ⟨m, rfl⟩
  | error fault => exact .inr ⟨fault, rfl⟩

theorem Module.refused_of_not (no : ∀ m, Module.ofImage config bytes ≠ .ok m) :
    Module.Refused config bytes :=
  (ofImage_or_refused config bytes).resolve_left fun ⟨m, is⟩ => no m is

/-- Bytes are restored or refused as an image. If they are restored, then nothing that is left when
some are cut off the end is, nothing that they begin is, and neither are their seven blocks in any
other order. -/
theorem Module.ofImage_delimited (config : Config) :
    (∀ bytes, (∃ m, Module.ofImage config bytes = .ok m) ∨ Module.Refused config bytes) ∧
    ∀ bytes m, Module.ofImage config bytes = .ok m →
      (∀ first rest, bytes = first ++ rest → rest ≠ ByteArray.empty → Module.Refused config first) ∧
      (∀ rest, rest ≠ ByteArray.empty → Module.Refused config (bytes ++ rest)) ∧
      (∃ header parts, Image.Splits bytes.data.toList header parts) ∧
      ∀ header parts, Image.Splits bytes.data.toList header parts →
        ∀ σ : Equiv.Perm (Fin 7), σ ≠ .refl _ →
        Module.Refused config ⟨(header ++ (List.ofFn (parts ∘ σ)).flatten).toArray⟩ := by
  refine ⟨ofImage_or_refused config, fun bytes m restored => ?_⟩
  have nothing : ∀ {a rest : ByteArray} {m m' : Module}, Module.ofImage config a = .ok m →
      Module.ofImage config (a ++ rest) = .ok m' → rest = ByteArray.empty := by
    intro a rest m m' h h'
    rw [ofImage_ok] at h h'
    rw [ByteArray.toList_data_append] at h'
    have none' := Image.rest_of_read h h'
    exact ByteArray.ext (Array.toList_eq_nil_iff.1 none')
  refine ⟨?_, ?_, ?_, ?_⟩
  · rintro first rest rfl more
    exact refused_of_not fun m' restored' => more (nothing restored' restored)
  · intro rest more
    exact refused_of_not fun m' restored' => more (nothing restored restored')
  · obtain ⟨contents, splits⟩ := Image.splits_of_read (ofImage_ok.1 restored)
    exact ⟨_, _, splits⟩
  · intro header parts splits σ other
    refine refused_of_not fun m' restored' => other ?_
    exact Image.order_of_read (ofImage_ok.1 restored) splits (ofImage_ok.1 restored')

/-- An import in a table, a function that calls it there, and data in a memory. -/
def Generator.tableCall : List Generator.Request :=
  [.declare (.sig ⟨[.i32], some .i32⟩), .declare (.funcImport ⟨"m", "f"⟩ 0),
    .declare (.table ⟨1, some 2⟩ none),
    .declare (.memory ⟨1, none⟩ none), .declare (.func 0), .declare (.export "g" (.function 1)),
    .declare (.elems ⟨0, .const (.i32 0), #[some 0]⟩), .declare
      (.data ⟨.const (.i32 8), ⟨#[1, 2, 3]⟩⟩),
    .define 1 ⟨#[0x00, 0x20, 0x00, 0x41, 0x00, 0x11, 0x00, 0x00, 0x0b]⟩ 0]

/-- From the image of that module no byte may be cut, none may be added, and no two blocks may
change places. -/
theorem Module.ofImage_delimited_tableCall :
    ∃ m g m', Gen.finish ((Generator.new {}).after Generator.tableCall) = (.ok m, g) ∧
    Module.ofImage {} (m.toImage {}) = .ok m' ∧ m.env.funcImports.size = 1 ∧ m.elems.size = 1 ∧
      m.data.size = 1 ∧
    (∀ first rest, m.toImage {} = first ++ rest → rest ≠ ByteArray.empty →
      Module.Refused {} first) ∧
    Module.Refused {} (m.toImage {} ++ ⟨#[0]⟩) ∧
    ∃ header parts, Image.Splits (m.toImage {}).data.toList header parts ∧
      Module.Refused {} ⟨(header ++ (List.ofFn (parts ∘ Equiv.swap 0 6)).flatten).toArray⟩ := by
  obtain ⟨m, g, is, shown⟩ := Generator.finished_of {} Generator.tableCall (fun m =>
    (Image.read {} (Image.write 33554432 m)).isOk && m.env.funcImports.size = 1 &&
      m.elems.size = 1 && m.data.size = 1) (by decide +kernel)
  simp only [Bool.and_eq_true, decide_eq_true_eq] at shown
  obtain ⟨⟨⟨readable, imports⟩, elems⟩, data⟩ := shown
  obtain ⟨m', read⟩ := Steps.exists_of_isOk readable
  have restored : Module.ofImage {} (m.toImage {}) = .ok m' := ofImage_ok.2 read
  obtain ⟨shorter, longer, ⟨header, parts, splits⟩, reordered⟩ :=
    (ofImage_delimited {}).2 _ m' restored
  refine ⟨m, g, m', is, restored, imports, elems, data, shorter, longer _ (by decide), header,
    parts, splits,
    reordered header parts splits _ fun same => ?_⟩
  have : Equiv.swap (0 : Fin 7) 6 0 = 0 := by rw [same]; rfl
  exact absurd this (by decide)

end Wasmill
