import Wasmill.Proofs.Ssa.Sequence
import Wasmill.Proofs.Ssa.Stepping

/-! Checking and compiling side by side.

While code is live the operands of the checker are the types of the values that the builder has on
its stack, and every frame of the checker has its frame in the builder. What the checker finds
there, the builder finds too. -/
namespace Wasmill
open List

/-- A table of the module's own that is empty, and stays so. -/
def TableDesc.Empty (desc : TableDesc) : Prop := desc.source = none ∧ desc.bounds.initial = 0

namespace Wasm

/-- The context tells of the same module as the environment. -/
structure Context.Describes (ctx : Context) (env : Env) : Prop where
  sigs : ∀ i ty sig, ctx.funcType? i = some ty → env.sigs[i]? = some sig →
    ty.params = sig.params.map Ty.num ∧ ty.results = (sig.result.map Ty.num).toList
  funcs : ∀ i : Nat, ctx.funcs[i]? = env.funcs[i]?
  globals : ∀ (i : Nat) ty g, ctx.globals[i]? = some ty → env.globals[i]? = some g →
    ty.content = .num g.ty.content
  /-- Memories have addresses of 32 bits. -/
  memories : ∀ m ∈ ctx.memories, m.bounds.wide = false

/-- Only the operands change. -/
def Checker.Restacks (k k' : Checker) : Prop := k' = { k with operands := k'.operands }

theorem Checker.Restacks.trans {k k' k'' : Checker} (first : k.Restacks k')
    (second : k'.Restacks k'') : k.Restacks k'' := by
  unfold Restacks at *
  rw [second, first]

end Wasm

namespace Ssa
open Wasm Steps

/-- How the checker has opened a frame of live code. -/
def Frame.Marked (sig : Sig) (opened : Opened) (fr : Frame) : Prop :=
  match fr.kind with
  | .function => opened = .block ∧ fr.result = sig.result
  | .block => opened = .block
  | .loop header => header.isSome ∧ opened = .loop
  | .ifBlock e _ => opened = if e.isSome then .ifArm else .elseArm

/-- The scope of the checker that belongs to a frame of live code. -/
structure Marks (sig : Sig) (sc : Scope) (fr : Frame) : Prop where
  height : sc.height = fr.base
  params : sc.ty.params = []
  results : sc.ty.results = (fr.result.map Ty.num).toList
  reached : sc.unreachable = false
  kind : fr.Marked sig sc.opened

/-- What the checker knows of a value. -/
def Function.operand (f : Function) (v : Value) : Operand := .known (.num (f.valueTy v))

/-- Live code, as the checker sees it. -/
structure Tracks (k : Checker) (s : Builder) : Prop where
  operands : k.operands.toList.reverse = s.stack.map s.func.operand
  locals : k.locals.toList = s.localTypes.toList.map Ty.num
  depth : k.scopes.length = s.control.length
  frames : ∀ (d : Nat) (fr : Frame), s.control[d]? = some fr →
    ∃ sc, k.scopes[d]? = some sc ∧ Marks s.func.sig sc fr
  whole : ∀ sc, k.scopes.getLast? = some sc → sc.ty.results = (s.func.sig.result.map Ty.num).toList
  rooted : k.Rooted

section
variable {k k' : Checker} {s s' : Builder} {fr fr' : Frame} {sc : Scope} {ty : Ty} {o : Operand}

theorem Frame.Marked.extends {f g : Function} {sig : Sig} {opened : Opened}
    (marked : fr.Marked sig opened)
    (ext : fr.Extends f g fr') : fr'.Marked sig opened := by
  have kind := ext.kind
  unfold Marked at marked ⊢
  cases is : fr.kind with
  | function =>
    simp only [is] at marked kind
    simp only [kind, ext.result]
    exact marked
  | block =>
    simp only [is] at marked kind
    simp only [kind]
    exact marked
  | loop header =>
    cases header with
    | none => rw [is] at marked; cases marked.1
    | some h =>
      simp only [is] at marked kind
      obtain ⟨h', is', -⟩ := kind
      simp only [is']
      exact marked
  | ifBlock e locals =>
    simp only [is] at marked kind
    simp only [kind]
    exact marked

theorem Marks.extends {f g : Function} {sig : Sig} (marks : Marks sig sc fr)
    (ext : fr.Extends f g fr') : Marks sig sc fr' where
  height := marks.height.trans ext.base.symm
  params := marks.params
  results := by rw [ext.result]; exact marks.results
  reached := marks.reached
  kind := marks.kind.extends ext

namespace Tracks
variable (tracks : Tracks k s)
include tracks

theorem head : ∃ sc outer fr rest, k.scopes = sc :: outer ∧
    s.control = fr :: rest ∧ Marks s.func.sig sc fr ∧ sc.height = s.base := by
  obtain ⟨sc, outer, scopes, -⟩ := tracks.rooted
  cases control : s.control with
  | nil =>
    have depth := tracks.depth
    rw [scopes, control] at depth
    cases depth
  | cons fr rest =>
    obtain ⟨sc', here, marks⟩ := tracks.frames 0 fr (by rw [control]; rfl)
    rw [scopes] at here
    cases here
    exact ⟨sc, outer, fr, rest, scopes, rfl, marks, by simp [Builder.base, control, marks.height]⟩

theorem size : k.operands.size = s.stack.length := by
  have := congrArg List.length tracks.operands
  simpa using this

theorem based : s.base ≤ s.stack.length := by
  obtain ⟨sc, outer, fr, rest, scopes, -, -, height⟩ := tracks.head
  obtain ⟨sc', outer', scopes', le⟩ := tracks.rooted
  rw [scopes] at scopes'
  cases scopes'
  rw [← height, ← tracks.size]
  exact le

/-- The operands change above the base of the innermost frame. -/
theorem later (operands : Array Operand) (t : Builder) (evolves : s.Evolves t)
    (same : operands.toList.reverse = t.stack.map t.func.operand) (le : s.base ≤ t.stack.length) :
    Tracks { k with operands := operands } t := by
  obtain ⟨sc, outer, fr, rest, scopes, -, -, height⟩ := tracks.head
  refine ⟨same, by rw [evolves.types]; exact tracks.locals,
    by rw [evolves.depth]; exact tracks.depth,
    fun d fr' at' => ?_, fun sc last => ?_, sc, outer, scopes, ?_⟩
  · have inside : d < s.control.length := by
      rw [← evolves.depth]
      exact (List.getElem?_eq_some_iff.1 at').1
    obtain ⟨fr, here⟩ : ∃ fr, s.control[d]? = some fr := ⟨_, getElem?_eq_getElem inside⟩
    obtain ⟨fr'', at'', ext⟩ := evolves.frames d fr here
    rw [at'] at at''
    cases at''
    obtain ⟨sc, scope, marks⟩ := tracks.frames d fr here
    exact ⟨sc, scope, evolves.grows.sig ▸ marks.extends ext⟩
  · rw [evolves.grows.sig]
    exact tracks.whole sc last
  · have := congrArg List.length same
    simp only [length_reverse, Array.length_toList, length_map] at this
    show sc.height ≤ operands.size
    omega

/-- An operand is taken. -/
theorem popAny (h : Check.popAny k = .ok (o, k')) :
    ∃ v rest, s.stack = v :: rest ∧ s.base ≤ rest.length ∧ o = s.func.operand v ∧ k.Restacks k' ∧
      Tracks k' { s with stack := rest } := by
  obtain ⟨sc, outer, fr, frames, scopes, -, marks, height⟩ := tracks.head
  have based := tracks.based
  rcases Check.popAny_ok scopes h with ⟨-, dead, -⟩ | ⟨other, back, rfl⟩
  · rw [marks.reached] at dead
    cases dead
  · have operands := tracks.operands
    rw [tracks.size, height] at other
    cases stack : s.stack with
    | nil => rw [stack] at based other; exact absurd (Nat.le_zero.1 based).symm other
    | cons v rest =>
      rw [stack] at operands other based
      simp only [length_cons] at other based
      have top : k.operands.toList.reverse.head? = some (s.func.operand v) := by rw [operands]; rfl
      rw [head?_reverse, Array.getLast?_toList, back] at top
      have le : s.base ≤ rest.length := by omega
      have after : Tracks { k with operands := k.operands.pop } { s with stack := rest } :=
        tracks.later _ { s with stack := rest } (.same rfl rfl rfl)
          (by rw [Array.toList_pop, ← tail_reverse, operands]; rfl) le
      exact ⟨v, rest, rfl, le, by simpa using top, rfl, after⟩

/-- Operands are numbers, and a type that one has is its own. -/
theorem popTy (h : Check.popTy ty k = .ok (o, k')) :
    ∃ v rest, s.stack = v :: rest ∧ s.base ≤ rest.length ∧ o = s.func.operand v ∧
      ty = .num (s.func.valueTy v) ∧ k.Restacks k' ∧ Tracks k' { s with stack := rest } := by
  obtain ⟨o', k₁, popped, h⟩ := bind_ok h
  obtain ⟨v, rest, stack, le, rfl, ctx, after⟩ := tracks.popAny popped
  obtain ⟨matches', h⟩ := demand_ok (after_context h :)
  cases h
  refine ⟨v, rest, stack, le, rfl, ?_, ctx, after⟩
  simp only [Check.matchesTy, Function.operand] at matches'
  cases ty with
  | num t =>
    have same : s.func.valueTy v = t := by simpa [Context.tySub] using matches'
    rw [same]
  | ref r => cases matches'

theorem pop (h : Check.pop ty k = .ok ((), k')) :
    ∃ v rest, s.stack = v :: rest ∧ s.base ≤ rest.length ∧ ty = .num (s.func.valueTy v) ∧
      k.Restacks k' ∧ Tracks k' { s with stack := rest } := by
  obtain ⟨o, k₁, popped, h⟩ := bind_ok h
  cases h
  obtain ⟨v, rest, stack, le, -, is, ctx, after⟩ := tracks.popTy popped
  exact ⟨v, rest, stack, le, is, ctx, after⟩

/-- Several operands are taken. -/
theorem popAll {types : List Ty} (h : Check.popAll types k = .ok ((), k')) :
    ∃ taken rest, s.stack = taken ++ rest ∧ s.base ≤ rest.length ∧
      types.reverse = taken.map (fun v => .num (s.func.valueTy v)) ∧ k.Restacks k' ∧
        Tracks k' { s with stack := rest } := by
  unfold Check.popAll at h
  generalize types.reverse = types' at h
  induction types' generalizing k s with
  | nil => cases h; exact ⟨[], s.stack, rfl, tracks.based, rfl, rfl, tracks⟩
  | cons ty more ih =>
    obtain ⟨_, k₁, one, h⟩ := bind_ok h
    obtain ⟨v, rest, stack, le, is, same, after⟩ := tracks.pop one
    obtain ⟨taken, rest', stack', le', are, same', after'⟩ := ih after h
    have stack' : rest = taken ++ rest' := stack'
    refine ⟨v :: taken, rest', ?_, le', ?_, same.trans same', after'⟩
    · rw [stack, stack']; rfl
    · rw [is, are]; rfl

end Tracks

theorem operands_grow (sound : s.Sound) (grows : s.func.Grows s'.func) :
    s.stack.map s'.func.operand = s.stack.map s.func.operand :=
  map_congr_left fun v mem => by rw [Function.operand, grows.types v (sound.stack v mem)]; rfl

/-- An instruction leaves its result. -/
theorem Tracks.emitted {b : Nat} {inst : Inst} {ty : ValType} (tracks : Tracks k s)
    (sound : s.Sound)
    (live : s.current = some b) : Tracks { k with operands := k.operands.push (.known (.num ty)) }
      (s.emitted b inst (some ty)) := by
  have evolves : s.Evolves (s.emitted b inst (some ty)) :=
    Builder.emitted_evolves sound live (some ty)
  have new : (s.emitted b inst (some ty)).func.valueTy s.func.values.size = ty := by
    simp [Builder.emitted, Builder.appended, Function.valueTy, Function.newValue,
      Function.modifyBlock]
  refine tracks.later _ _ evolves ?_ ?_
  · show _ = List.map _ (s.func.values.size :: s.stack)
    rw [map_cons, operands_grow sound evolves.grows, ← tracks.operands, Function.operand, new]
    simp
  · exact Nat.le_succ_of_le tracks.based

theorem Tracks.appended {b : Nat} {inst : Inst} (tracks : Tracks k s) (sound : s.Sound)
    (live : s.current = some b) : Tracks k (s.emitted b inst none) := by
  have evolves : s.Evolves (s.emitted b inst none) := Builder.emitted_evolves sound live none
  refine tracks.later k.operands _ evolves ?_ tracks.based
  rw [show (s.emitted b inst none).stack = s.stack from rfl, operands_grow sound evolves.grows,
    tracks.operands]

end
end Ssa
end Wasmill
