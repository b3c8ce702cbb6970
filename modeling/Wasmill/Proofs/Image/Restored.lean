import Wasmill.Proofs.Generator.FittingCode
import Wasmill.Proofs.Image.Delimited
import Wasmill.Proofs.Image.Parts

/-! Modules are restored from their images.

A module that a generator finishes is restored as it was by every engine with the same branch range
and interrupt mode, and by no other. -/
namespace Wasmill
open Code Steps List Wasmill.Module

/-- The modules are the same, if the places of their signature tokens are looked up. -/
structure Module.Same (m m' : Module) : Prop where
  tokens : ∀ sig, m'.env.sigToken sig = m.env.sigToken sig
  others : m' = { m with env := { m.env with sigTokens := m'.env.sigTokens } }

theorem Module.same_trimmed (m : Module) : m.Same m.trimmed :=
  ⟨fun sig => Image.get_trimmed m.env.sigTokens sig, rfl⟩

namespace Image
variable {config engine : Config} {m m' : Module} {bytes : List UInt8}

theorem write_eq (branchRange : Nat) (m : Module) :
    write branchRange m = head branchRange ++ blocks (content m) := rfl

/-- A block is a part of its image. -/
theorem content_short (short : (write config.maxBranchRange m).length < UInt64.size) (tag : Tag) :
    (content m tag).length < UInt64.size := by
  have listed : tag ∈ Tag.all := by cases tag <;> decide
  have part : (block tag (content m tag)).Sublist (blocks (content m)) :=
    sublist_flatten_of_mem (mem_map.2 ⟨tag, listed, rfl⟩)
  have length : (content m tag).length ≤ (block tag (content m tag)).length := by
    rw [block, length_append]
    exact Nat.le_add_left _ _
  rw [write_eq, length_append] at short
  have := part.length_le
  omega

theorem read_write (fits : m.Fits) (short : (write config.maxBranchRange m).length < UInt64.size)
    (range : config.maxBranchRange < UInt32.size)
    (mode : config.interruptMode = m.env.interruptMode) :
    read config (write config.maxBranchRange m) = .ok m.trimmed := by
  refine read_ok.2 ⟨range, content m, write_eq _ m, decodes_content fits (content_short short), ?_⟩
  rw [check_trimmed, mode]
  exact check_ok fits

theorem check_mode {mode : InterruptMode} (checked : check mode m = .ok ()) :
    m.env.interruptMode = mode := by
  refine Classical.byContradiction fun other => ?_
  unfold check at checked
  dsimp only at checked
  rw [if_pos other] at checked
  cases checked

/-- The bytes say for which engines they were made. -/
theorem read_engine (read₁ : read config bytes = .ok m) (read₂ : read engine bytes = .ok m') :
    engine.maxBranchRange = config.maxBranchRange ∧
      engine.interruptMode = config.interruptMode := by
  obtain ⟨small, contents, rfl, decodes, checked⟩ := read_ok.1 read₁
  obtain ⟨small', contents', same, decodes', checked'⟩ := read_ok.1 read₂
  obtain ⟨heads, bodies⟩ := append_inj same (by simp only [head_length])
  constructor
  · unfold head u32 at heads
    have read := congrArg Codec.fromLe (append_cancel_left heads)
    rw [fromLe_le, fromLe_le] at read
    rw [Nat.mod_eq_of_lt small, Nat.mod_eq_of_lt small'] at read
    exact read.symm
  · have restored := restore_module_ok.2 ⟨rfl, contents, rfl, decodes⟩
    rw [bodies, restore_module_ok.2 ⟨rfl, contents', rfl, decodes'⟩] at restored
    cases restored
    exact (check_mode checked').symm.trans (check_mode checked)

end Image

theorem Module.toImage_trimmed (m : Module) (config : Config) :
    m.trimmed.toImage config = m.toImage config := by
  unfold Module.toImage
  rw [Image.write_eq, Image.write_eq, Image.content_trimmed]

namespace Generator
variable {g : Generator} {config : Config} {history : List Request} {m : Module}

/-- A module that is finished with slots of its own is restored from its image by every engine with
its branch range and its interrupt mode, and then has the same image. Every other engine refuses the
image. -/
theorem finish_restored (limits : config.limits.Fits) (range : config.maxBranchRange < UInt32.size)
    (fits : ∀ r ∈ history, r.Fits) (own : Along Request.Own (new config) history)
    (finished : Gen.finish ((new config).after history) = (.ok m, g))
    (short : (m.toImage config).size < UInt64.size) :
    (∀ engine : Config, engine.maxBranchRange = config.maxBranchRange →
      engine.interruptMode = config.interruptMode →
      ∃ m', Module.ofImage engine (m.toImage config) = .ok m' ∧ m.Same m' ∧
        m'.toImage engine = m.toImage config) ∧
    ∀ engine : Config, engine.maxBranchRange ≠ config.maxBranchRange ∨
      engine.interruptMode ≠ config.interruptMode →
      Module.Refused engine (m.toImage config) := by
  obtain ⟨env, grown, mode⟩ := (fits_new limits).after fits own
  obtain ⟨_, _, kept⟩ := (grown_new False config).after history
  obtain ⟨fit, same⟩ := grown.finish kept finished
  have mode : m.env.interruptMode = config.interruptMode := same.trans mode
  have restored : ∀ engine : Config, engine.maxBranchRange = config.maxBranchRange →
      engine.interruptMode = config.interruptMode →
      Image.read engine (m.toImage config).data.toList = .ok m.trimmed := by
    intro engine sameRange sameMode
    have short : (Image.write config.maxBranchRange m).length < UInt64.size := short
    show Image.read engine (Image.write config.maxBranchRange m) = _
    rw [← sameRange] at short range ⊢
    exact Image.read_write fit short range (sameMode.trans mode.symm)
  constructor
  · intro engine sameRange sameMode
    refine ⟨m.trimmed, ofImage_ok.2 (restored engine sameRange sameMode), m.same_trimmed, ?_⟩
    unfold Module.toImage
    rw [sameRange]
    exact m.toImage_trimmed config
  · intro engine other
    refine refused_of_not fun m' read => ?_
    obtain ⟨sameRange, sameMode⟩ := Image.read_engine (restored config rfl rfl) (ofImage_ok.1 read)
    rcases other with other | other
    · exact other sameRange
    · exact other sameMode

theorem finish_restored_tableCall : ∃ m g m', Gen.finish ((new {}).after tableCall) = (.ok m, g) ∧
    Module.ofImage {} (m.toImage {}) = .ok m' ∧ m.Same m' ∧ m'.toImage {} = m.toImage {} ∧
    Module.Refused { interruptMode := .signal } (m.toImage {}) := by
  obtain ⟨m, g, is, shown⟩ := finished_of {} tableCall
    (fun m => decide ((Image.write 33554432 m).length < UInt64.size)) (by decide +kernel)
  have fits : ∀ r ∈ tableCall, r.Fits := by
    intro r mem
    simp only [tableCall, mem_cons, not_mem_nil, or_false] at mem
    rcases mem with rfl | rfl | rfl | rfl | rfl | rfl | rfl | rfl | rfl <;> trivial
  have own : Along Request.Own (new {}) tableCall :=
    ⟨trivial, trivial, trivial, trivial, trivial, trivial, trivial, trivial, trivial, trivial⟩
  obtain ⟨restored, refused⟩ :=
    finish_restored Limits.fits_default (by decide) fits own is (of_decide_eq_true shown)
  obtain ⟨m', read, same, again⟩ := restored {} rfl rfl
  exact ⟨m, g, m', is, read, same, again, refused _ (.inr (by decide))⟩

/-- A slot that was made against other declarations, with one more signature, and a body that names
it. -/
def foreignSlot : CompileSlot :=
  { env := ((new {}).after [.declare (.sig ⟨[], none⟩), .declare (.sig ⟨[.i32], none⟩),
    .declare (.table ⟨1, none⟩ none),
      .declare (.func 0)]).env
    body := ⟨#[0x00, 0x41, 0x00, 0x41, 0x00, 0x11, 0x01, 0x00, 0x0b]⟩ }

/-- With a slot of another generator, a module may be finished whose image is refused by the engine
it was made for. -/
theorem finish_foreignSlot : ∃ m g, Gen.finish ((new {}).after
      [.declare (.sig ⟨[], none⟩), .declare (.table ⟨1, none⟩ none), .declare (.func 0),
        .closeSlot 0 foreignSlot]) = (.ok m, g) ∧
    Module.Refused {} (m.toImage {}) := by
  obtain ⟨m, g, is, shown⟩ := finished_of {} [.declare (.sig ⟨[], none⟩),
    .declare (.table ⟨1, none⟩ none), .declare (.func 0),
      .closeSlot 0 foreignSlot] (fun m => !(Image.read {} (Image.write 33554432 m)).isOk) (by
        decide +kernel)
  refine ⟨m, g, is, refused_of_not fun m' read => ?_⟩
  have read := ofImage_ok.1 read
  rw [show (m.toImage {}).data.toList = Image.write 33554432 m from rfl] at read
  rw [read] at shown
  cases shown

end Generator
end Wasmill
