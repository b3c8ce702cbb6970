import Wasmill.Proofs.Ssa.Blocks

/-! From code to a function.

Whatever code the checker accepts, the function that is compiled for it does what the code does. -/
namespace Wasmill.Ssa
open Wasm Steps Check

section
variable {σ ε : Type} {env : Env} {O : Outside σ ε} {k k₁ k' : Checker} {s s₁ s' : Builder}
  {result : Option ValType}
  {code rest : Nat → Wasm.State σ → Wasm.Result σ ε} {b place : Nat} {o : Operator} {t : Tree}

/-- What is checked does not change while code is checked, and only the operator that closes a block
can leave the last frame. -/
theorem operator_ctx (rooted : k.Rooted) (flat : Check.opensHandler o = false)
    (checked : Check.operator o { k with offset := place } = .ok ((), k')) :
    k'.ctx = k.ctx ∧ (o ≠ .close → k'.Rooted) := by
  have rooted : ({ k with offset := place } : Checker).Rooted := rooted
  rcases o.isPlain_cases with plain | rfl | rfl | ⟨opened, ty, is⟩
  · have stays := (local_operator plain flat).stays rooted checked
    exact ⟨stays.ctx, fun _ => stays.rooted⟩
  · obtain ⟨_, _, _, -, -, -, closes, -⟩ := close_ok rooted checked
    exact ⟨closes.ctx, fun no => absurd rfl no⟩
  · obtain ⟨_, _, _, _, -, -, -, -, closes, opens⟩ := Check.elseArm_ok rooted checked
    exact ⟨opens.ctx.trans closes.ctx, fun _ => opens.rooted⟩
  · obtain ⟨_, _, stays, opens⟩ := operator_opens is rooted checked
    exact ⟨opens.ctx.trans stays.ctx, fun _ => opens.rooted⟩

theorem Simulates.of_eq {code' : Nat → Wasm.State σ → Wasm.Result σ ε}
    (simulates : Simulates O k' s s' code)
    (same : ∀ ticks c, code' ticks c = code ticks c) : Simulates O k' s s' code' := by
  rw [show code' = code from funext fun ticks => funext (same ticks)]
  exact simulates

/-- Compiled anywhere in live code, the tree does what it says. -/
def Compiles (env : Env) (O : Outside σ ε) (result : Option ValType) (t : Tree) : Prop :=
  ∀ ⦃k k' : Checker⦄ ⦃s s' : Builder⦄ ⦃b : Nat⦄, k.ctx.Describes env → Tracks k s → s.Sound →
    s.current = some b → s.func.sig.result = result → Check.each t.ops k = .ok ((), k') →
    Build.each env t.ops s = .ok ((), s') → Simulates O k' s s' (t.exec env O result)

/-- Code goes on, in live or in dead code. -/
theorem Compiles.goesOn {rest : Tree} (compiles : Compiles env O result rest) (plain : rest.Plain)
    (describes : k₁.ctx.Describes env) (is : s.func.sig.result = result)
    (checked : Check.each rest.ops k₁ = .ok ((), k'))
    (built : Build.each env rest.ops s₁ = .ok ((), s'))
    (first : Simulates O k₁ s s₁ code) :
    Simulates O k' s s' fun ticks c => (code ticks c).andThen (rest.exec env O result ticks) := by
  cases live : s₁.current with
  | some b =>
    exact first.andThen (compiles describes (first.tracks b live) first.sound live
      (first.evolves.grows.sig ▸ is) checked built)
  | none =>
    obtain ⟨loc, rfl⟩ := dead_each plain live built
    exact first.dead live loc

/-- The code inside a block, up to the operator that closes it. -/
theorem Compiles.within {sig : Sig} (place : Nat) (compiles : Compiles env O result t)
    (plain : t.Plain) (flat : Flat t.ops)
    (describes : k.ctx.Describes env) (is : sig.result = result)
    (checked : Check.each t.ops k = .ok ((), k'))
    (built : Build.each env t.ops s = .ok ((), s')) :
    Inside O sig k { k' with offset := place } s (Build.placed s' place) (t.exec env O result) :=
  fun tracks sound same _ live =>
    ⟨(compiles describes tracks sound live (same ▸ is) checked built).placed place,
      (t.stays plain flat tracks.rooted checked).placed place⟩

/-- A block with code inside and code behind it, once the block itself is known. -/
theorem Compiles.around {body rest : Tree} {close : Nat} {ops : List Placed}
    (inner : Compiles env O result body)
    (behind : Compiles env O result rest) (plain : body.Plain ∧ rest.Plain) (flat : Flat ops)
    (are : ops = (o, place) :: (body.ops ++ (.close, close) :: rest.ops)) (opening : o ≠ .close)
    (describes : k.ctx.Describes env)
    (tracks : Tracks k s) (is : s.func.sig.result = result)
    (checked : Check.each ops k = .ok ((), k'))
    (built : Build.each env ops s = .ok ((), s')) (first : ∀ {k₁ k₂ k₃ s₁ s₂ s₃},
      CheckedAndBuilt env o { k with offset := place } k₁ (Build.placed s place) s₁ →
      Inside O s.func.sig k₁ k₂ s₁ s₂ (body.exec env O result) →
        CheckedAndBuilt env .close k₂ k₃ s₂ s₃ →
      Simulates O k₃ (Build.placed s place) s₃ code) :
    Simulates O k' s s' fun ticks c => (code ticks c).andThen (rest.exec env O result ticks) := by
  subst are
  obtain ⟨k₁, k₂, k₃, opened, inside, last, more⟩ := each_block_ok checked
  obtain ⟨s₁, s₂, s₃, opened', inside', last', more'⟩ := Build.each_block_ok built
  obtain ⟨ctx₁, rooted₁⟩ := operator_ctx tracks.rooted (flat (o, place) List.mem_cons_self) opened
  have stays₂ := body.stays plain.1 flat.tail.left (rooted₁ opening) inside
  obtain ⟨ctx₃, -⟩ := operator_ctx stays₂.rooted rfl last
  have within := inner.within close plain.1 flat.tail.left (ctx₁ ▸ describes) is inside inside'
  exact behind.goesOn plain.2 ((ctx₃.trans (stays₂.ctx.trans ctx₁)) ▸ describes) is more more'
    (first ⟨opened, opened'⟩ within ⟨last, last'⟩).unplaced

/-- The code of a tree, compiled from live code on. -/
theorem tree_compiles (quiet : O.Undisturbed) (hollow : Hollow env O) (plain : t.Plain)
    (flat : Flat t.ops) : Compiles env O result t := by
  induction t with
  | done =>
    intro k k' s s' b _ tracks sound _ _ checked built
    cases checked
    cases built
    exact simulates_silent sound (.same rfl rfl rfl) rfl tracks fun _ c _ at' =>
      ⟨c, fun _ => rfl, at', rfl⟩
  | op o place rest ih =>
    intro k k' s s' b describes tracks sound live is checked built
    obtain ⟨k₁, one, more⟩ := each_cons_ok checked
    obtain ⟨s₁, one', more'⟩ := Build.each_cons_ok built
    obtain ⟨ctx₁, -⟩ := operator_ctx tracks.rooted (flat (o, place) List.mem_cons_self) one
    have first : Simulates O k₁ s s₁ fun _ c => c.operate env O result o place :=
      (live_simulates (tracks.placed place)
        (sound.placed place) live plain.1 describes hollow rfl is.symm ⟨one, one'⟩).unplaced
    exact (ih plain.2 flat.tail).goesOn plain.2 (ctx₁ ▸ describes) is more more' first
  | block ty place body close rest ihBody ihRest =>
    intro k k' s s' b describes tracks sound live is checked built
    exact (ihBody plain.1 flat.tail.left).around
      (ihRest plain.2 flat.tail.right.tail) plain flat rfl nofun describes tracks is
      checked built (block_simulates (tracks.placed place) (sound.placed place) live · · ·)
  | loop ty place body close rest ihBody ihRest =>
    intro k k' s s' b describes tracks sound live is checked built
    exact (ihBody plain.1 flat.tail.left).around
      (ihRest plain.2 flat.tail.right.tail) plain flat rfl nofun describes tracks is
      checked built (loop_simulates (tracks.placed place) (sound.placed place) live quiet · · ·)
  | ifThen ty place arm close rest ihArm ihRest =>
    intro k k' s s' b describes tracks sound live is checked built
    have whole := (ihArm plain.1 flat.tail.left).around
      (ihRest plain.2 flat.tail.right.tail) plain flat rfl nofun describes tracks is
      checked built (ifThen_simulates (tracks.placed place) (sound.placed place) live · · ·)
    refine whole.of_eq fun ticks c => ?_
    rw [Tree.exec]
    cases c.stack <;> rfl
  | ifElse ty place arm middle other close rest ihArm ihOther ihRest =>
    intro k k' s s' b describes tracks sound live is checked built
    obtain ⟨k₁, k₂, k₃, opened, inside, switched, behind⟩ := each_block_ok checked
    obtain ⟨k₄, others, behind⟩ := each_append_ok behind
    obtain ⟨k₅, last, more⟩ := each_cons_ok behind
    obtain ⟨s₁, s₂, s₃, opened', inside', switched', behind'⟩ := Build.each_block_ok built
    obtain ⟨s₄, others', behind'⟩ := Build.each_append_ok behind'
    obtain ⟨s₅, last', more'⟩ := Build.each_cons_ok behind'
    obtain ⟨ctx₁, rooted₁⟩ := operator_ctx tracks.rooted rfl opened
    have stays₂ := arm.stays plain.1 flat.tail.left (rooted₁ (by rintro ⟨⟩)) inside
    obtain ⟨ctx₃, rooted₃⟩ := operator_ctx stays₂.rooted rfl switched
    have flat' : Flat other.ops := flat.tail.right.tail.left
    have stays₄ := other.stays plain.2.1 flat' (rooted₃ (by rintro ⟨⟩)) others
    obtain ⟨ctx₅, -⟩ := operator_ctx stays₄.rooted rfl last
    have ctx₃ : k₃.ctx = k.ctx := ctx₃.trans (stays₂.ctx.trans ctx₁)
    have within := (ihArm plain.1 flat.tail.left).within middle plain.1 flat.tail.left
      (ctx₁ ▸ describes) is inside inside'
    have within' := (ihOther plain.2.1 flat').within close plain.2.1 flat'
      (ctx₃ ▸ describes) is others others'
    have first := ifElse_simulates (tracks.placed place) (sound.placed place) live
      ⟨opened, opened'⟩ within ⟨switched, switched'⟩
      within' ⟨last, last'⟩
    have whole := (ihRest plain.2.2 flat.tail.right.tail.right.tail).goesOn plain.2.2
      ((ctx₅.trans (stays₄.ctx.trans ctx₃)) ▸ describes) is more more' first.unplaced
    refine whole.of_eq fun ticks c => ?_
    rw [Tree.exec]
    cases c.stack <;> rfl

end
end Wasmill.Ssa
