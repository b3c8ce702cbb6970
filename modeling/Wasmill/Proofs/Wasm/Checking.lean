import Wasmill.Proofs.Steps
import Wasmill.Proofs.Wasm.Tree
import Wasmill.Wasm.Valid.Code

/-! What checking an operator can change.

An operator that opens and closes no block works on the operands of the innermost frame; what lies
below stays, and so do the frames around it. The same holds of all the code between the start and
the end of a block, so a block leaves what was below it with its results on top. -/
namespace Wasmill.Wasm
open Steps List
variable {k k' : Checker} {o : Operator} {rest first : List Placed} {place : Nat} {sc : Scope}
  {opened : Opened}

namespace Checker

/-- Between operators the innermost frame has its operands above those below it. -/
def Rooted (k : Checker) : Prop :=
  ∃ sc rest, k.scopes = sc :: rest ∧ sc.height ≤ k.operands.size

/-- Only the innermost frame was worked on. -/
structure Stays (k k' : Checker) : Prop where
  ctx : k'.ctx = k.ctx
  locals : k'.locals = k.locals
  frame : ∃ sc rest u, k.scopes = sc :: rest ∧ k'.scopes = { sc with unreachable := u } :: rest ∧
    sc.height ≤ k'.operands.size ∧
    k'.operands.toList.take sc.height = k.operands.toList.take sc.height

theorem Rooted.stays (rooted : k.Rooted) : k.Stays k := by
  obtain ⟨sc, rest, scopes, le⟩ := rooted
  exact ⟨rfl, rfl, sc, rest, sc.unreachable, scopes, scopes, le, rfl⟩

theorem Stays.rooted (stays : k.Stays k') : k'.Rooted := by
  obtain ⟨sc, rest, u, -, scopes, le, -⟩ := stays.frame
  exact ⟨_, rest, scopes, le⟩

theorem Stays.trans {k'' : Checker} (first : k.Stays k') (second : k'.Stays k'') : k.Stays k'' := by
  obtain ⟨sc, rest, u, here, there, le, same⟩ := first.frame
  obtain ⟨sc', rest', u', here', there', le', same'⟩ := second.frame
  rw [there] at here'
  cases here'
  exact ⟨second.ctx.trans first.ctx, second.locals.trans first.locals, sc, rest, u', here, there',
    le', same'.trans same⟩

/-- Which operator is read is no part of a frame. -/
theorem Stays.placed (stays : k.Stays k') (place : Nat) :
    k.Stays { k' with offset := place } := ⟨stays.ctx, stays.locals, stays.frame⟩

theorem Stays.unplaced (stays : { k with offset := place }.Stays k') :
    k.Stays k' := ⟨stays.ctx, stays.locals, stays.frame⟩

end Checker

theorem after_context {α : Type} {g : Context → Check α} {r : α × Checker}
    (h : (Check.context >>= g) k = .ok r) :
    g k.ctx k = .ok r := h

/-- What is demanded holds, and is looked at only. -/
theorem demand_ok {α : Type} {c : Bool} {reason : String} {g : Unit → Check α} {r : α × Checker}
    (h : (Check.demand c reason >>= g) k = .ok r) : c = true ∧ g () k = .ok r := by
  obtain ⟨_, k₁, asked, h⟩ := bind_ok h
  unfold Check.demand at asked
  split at asked
  · next is => cases asked; exact ⟨is, h⟩
  · cases asked

namespace Check

/-- A computation that works on the innermost frame only. -/
class Local {α : Type} (x : Check α) : Prop where
  stays : ∀ {k a k'}, k.Rooted → x k = .ok (a, k') → k.Stays k'

section
variable {α β : Type} {x y : Check α} {f : α → Check β}

instance {a : α} : Local (pure a : Check α) where
  stays rooted h := by
    cases h
    exact rooted.stays

theorem local_bind (first : Local x) (rest : ∀ a, Local (f a)) : Local (x >>= f) where
  stays rooted h := by
    obtain ⟨a, t, one, two⟩ := bind_ok h
    have stays := first.stays rooted one
    exact stays.trans ((rest a).stays stays.rooted two)

theorem Local.bind_ok [Local x] {r : β × Checker} (rooted : k.Rooted) (h : (x >>= f) k = .ok r) :
    ∃ a k₁, k.Stays k₁ ∧ f a k₁ = .ok r := by
  obtain ⟨a, k₁, one, two⟩ := Steps.bind_ok h
  exact ⟨a, k₁, Local.stays rooted one, two⟩

instance [first : Local x] [rest : ∀ a, Local (f a)] : Local (x >>= f) := local_bind first rest

instance : Local (get : Check Checker) where
  stays rooted h := by
    cases h
    exact rooted.stays

instance {e : Error} : Local (throw e : Check α) := ⟨nofun⟩

instance {c : Prop} [Decidable c] [Local x] [Local y] : Local (if c then x else y) := by
  split <;> infer_instance

instance {l : List α} {f : α → Check PUnit} [each : ∀ a, Local (f a)] : Local (l.forM f) := by
  induction l with
  | nil => exact inferInstanceAs (Local (pure _))
  | cons a l ih => exact local_bind (each a) fun _ => ih

instance {l : List α} [each : ∀ a, Local (f a)] : Local (l.mapM f) := by
  induction l with
  | nil => exact inferInstanceAs (Local (pure _))
  | cons a l ih =>
    rw [mapM_cons]
    infer_instance

instance {o : Operand} : Local (pushOperand o) where
  stays rooted h := by
    cases h
    obtain ⟨sc, rest, scopes, le⟩ := rooted
    refine ⟨rfl, rfl, sc, rest, sc.unreachable, scopes, scopes, by simp; omega, ?_⟩
    simp only [Array.toList_push]
    rw [take_append_of_le_length (by simpa using le)]

theorem scope_ok (h : scope k = .ok (sc, k')) : k' = k ∧ ∃ rest, k.scopes = sc :: rest := by
  unfold scope at h
  rw [bind_apply _ (get_apply)] at h
  cases scopes : k.scopes with
  | nil => simp only [scopes] at h; cases h
  | cons sc' rest =>
    simp only [scopes] at h
    cases h
    exact ⟨rfl, rest, rfl⟩

theorem scope_apply {rest : List Scope} (scopes : k.scopes = sc :: rest) :
    scope k = .ok (sc, k) := by
  simp [scope, bind_apply _ get_apply, scopes]

/-- Below the base of an unreachable frame lie operands of any type. -/
theorem popAny_ok {o : Operand} {rest : List Scope} (scopes : k.scopes = sc :: rest)
    (h : popAny k = .ok (o, k')) :
    (k.operands.size = sc.height ∧ sc.unreachable = true ∧ o = .bottom ∧ k' = k) ∨
      (k.operands.size ≠ sc.height ∧ k.operands.back? = some o ∧
        k' = { k with operands := k.operands.pop }) := by
  rw [popAny, bind_apply _ (scope_apply scopes), bind_apply _ get_apply] at h
  split at h
  · next base =>
    split at h
    · next dead => cases h; exact .inl ⟨base, dead, rfl, rfl⟩
    · cases h
  · next other =>
    cases last : k.operands.back? with
    | none => simp only [last] at h; cases h
    | some o' =>
      simp only [last, bind_apply _ set_apply] at h
      cases h
      exact .inr ⟨other, rfl, rfl⟩

instance : Local popAny where
  stays rooted h := by
    obtain ⟨sc, rest, scopes, le⟩ := id rooted
    rcases popAny_ok scopes h with ⟨-, -, -, rfl⟩ | ⟨other, -, rfl⟩
    · exact rooted.stays
    · refine ⟨rfl, rfl, sc, rest, sc.unreachable, scopes, scopes, by simp; omega, ?_⟩
      simp only [Array.toList_pop, dropLast_eq_take, take_take, Array.length_toList]
      rw [Nat.min_eq_left (by omega)]

instance : Local unreachable where
  stays rooted h := by
    obtain ⟨sc, rest, scopes, le⟩ := rooted
    rw [unreachable, bind_apply _ (scope_apply scopes)] at h
    cases h
    refine ⟨rfl, rfl, sc, rest, true, scopes, by simp [scopes], by simp; omega, ?_⟩
    simp [take_take]

/-- Notes about locals do not concern frames. -/
instance {index : Nat} :
    Local (modify fun s => { s with assigned := index :: s.assigned } : Check PUnit) where
  stays rooted h := by
    cases h
    obtain ⟨sc, rest, scopes, le⟩ := rooted
    exact ⟨rfl, rfl, sc, rest, sc.unreachable, scopes, scopes, le, rfl⟩

end

/-! ### What operators are made of -/

section
variable {α : Type} {reason : String} {ok : Bool} {ty : Ty} {types : List Ty}

instance : Local (reject reason : Check α) := by
  unfold reject
  infer_instance

instance : Local (demand ok reason) := by
  unfold demand
  infer_instance

instance : Local (beyondEnd : Check α) := by
  unfold beyondEnd
  infer_instance

instance : Local context := by
  unfold context
  infer_instance

instance {o : Option α} : Local (orReject reason o) := by
  unfold orReject
  split <;> infer_instance

instance : Local (pushAll types) := by
  unfold pushAll push
  infer_instance

instance : Local (popTy ty) := by
  unfold popTy
  infer_instance

instance : Local (pop ty) := by
  unfold pop
  infer_instance

instance {ty : ValType} : Local (popNum ty) := inferInstanceAs (Local (pop _))

instance : Local (popAll types) := by
  unfold popAll
  infer_instance

instance : Local popAnyRef := by
  refine local_bind inferInstance fun o => ?_
  split <;> infer_instance

instance {depth : Nat} : Local (label depth) := by
  refine local_bind inferInstance fun s => ?_
  split
  · infer_instance
  · split <;> infer_instance

instance : Local results := by
  refine local_bind inferInstance fun s => ?_
  split <;> infer_instance

instance {index : Nat} : Local (dataAt index) := by
  refine local_bind inferInstance fun ctx => ?_
  split <;> infer_instance

instance {index : Nat} : Local (funcTypeAt index) := by
  unfold funcTypeAt
  infer_instance

instance {ty : BlockType} : Local (blockTy ty) := by
  unfold blockTy
  split <;> infer_instance

instance : Local select := by
  unfold select push
  refine local_bind inferInstance fun _ => local_bind inferInstance fun _ =>
    local_bind inferInstance fun _ => ?_
  split <;> infer_instance

instance {depth : Nat} : Local (refLabel depth) := by
  refine local_bind inferInstance fun types => ?_
  split <;> infer_instance

instance : Local popEqs := by
  unfold popEqs popBelow
  refine local_bind inferInstance fun _ => local_bind inferInstance fun _ => ?_
  split <;> infer_instance

instance {heap other : AbstractHeap} : Local (convertRef heap other) := by
  unfold convertRef popBelow pushRef push
  refine local_bind inferInstance fun o => ?_
  split <;> infer_instance

end

/-- Operators that open a block without a node of their own. -/
def opensHandler : Operator → Bool
  | .extra _ (.tryTable _ _) => true
  | _ => false

/-- Operators other than those that open and close blocks. -/
theorem local_operator (plain : o.isPlain) (flat : opensHandler o = false) :
    Local (operator o) := by
  cases o with
  | block _ | loop _ | ifBlock _ | elseArm | close => cases plain
  | extra name what =>
    cases what with
    | tryTable ty clauses => cases flat
    | _ =>
      simp only [operator, extra, push, pushNum, pushRef, popRef, popBelow, popPush, tableAt,
        memoryTy, atomicArg, memArg,
        call, tailCall, indirect, callRef, elemAt, castTypes, popCast]
      infer_instance
  | _ =>
    simp only [operator, push, pushNum, popPush, probe, tableAt, memoryTy, memArg, call, ret,
      indirect, brTable, localAt,
      assign, globalAt]
    infer_instance

/-! ### Blocks -/

theorem pushAll_apply (types : List Ty) (k : Checker) :
    pushAll types k = .ok ((),
      { k with operands := k.operands ++ (types.map Operand.known).toArray }) := by
  induction types generalizing k with
  | nil => simp [pushAll]
  | cons ty rest ih =>
    have first : push ty k = .ok ((), { k with operands := k.operands.push (.known ty) }) := rfl
    show (push ty >>= fun _ => pushAll rest) k = _
    rw [bind_apply _ first, ih]
    simp

theorem pushScope_apply (opened : Opened) (ty : FuncType) (k : Checker) :
    pushScope opened ty k = .ok ((), { k with
      scopes := ⟨opened, ty, k.operands.size, false, k.assigned⟩ :: k.scopes
      operands := k.operands ++ (ty.params.map Operand.known).toArray }) := by
  rw [pushScope, bind_apply _ (modify_apply _), pushAll_apply]

/-- The frame is closed, and leaves the given results on what lay below it. -/
structure Closes (k k' : Checker) (frame : Scope) (outer : List Scope)
    (results : List Ty) : Prop where
  ctx : k'.ctx = k.ctx
  locals : k'.locals = k.locals
  scopes : k'.scopes = outer
  operands : k'.operands.toList = k.operands.toList.take frame.height ++ results.map Operand.known

/-- At the end of a frame its results lie right above the operands below it. -/
theorem popScope_ok {frame : Scope} (rooted : k.Rooted) (h : popScope k = .ok (frame, k')) :
    ∃ rest k₁, k.scopes = frame :: rest ∧ popAll frame.ty.results k = .ok ((), k₁) ∧
      k₁.operands.size = frame.height ∧ Closes k k' frame rest [] := by
  obtain ⟨sc, rest, scopes, le⟩ := id rooted
  rw [popScope, bind_apply _ (scope_apply scopes)] at h
  obtain ⟨_, k₁, popped, h⟩ := bind_ok h
  rw [bind_apply _ get_apply] at h
  have stays := Local.stays rooted popped
  obtain ⟨sc', rest', u, here, there, -, same⟩ := stays.frame
  rw [scopes] at here
  cases here
  split at h
  · cases h
  · next size =>
    have size : k₁.operands.size = sc.height := Classical.not_not.1 size
    rw [bind_apply _ set_apply] at h
    cases h
    refine ⟨rest, k₁, scopes, popped, size, stays.ctx, stays.locals, by simp [there], ?_⟩
    rw [← same, take_of_length_le (by simp [size])]
    simp

/-- What opening a block makes of the state `k₁` behind its operands. -/
structure Opens (k k' : Checker) (opened : Opened) (ty : FuncType) : Prop where
  ctx : k'.ctx = k.ctx
  locals : k'.locals = k.locals
  scopes : ∃ assigned, k'.scopes = ⟨opened, ty, k.operands.size, false, assigned⟩ :: k.scopes
  operands : k'.operands.toList = k.operands.toList ++ ty.params.map Operand.known

theorem pushScope_opens (opened : Opened) (ty : FuncType)
    (h : pushScope opened ty k = .ok ((), k')) : Opens k k' opened ty := by
  rw [pushScope_apply] at h
  cases h
  exact ⟨rfl, rfl, ⟨_, rfl⟩, by simp⟩

theorem Opens.rooted {ty : FuncType} (opens : Opens k k' opened ty) : k'.Rooted := by
  obtain ⟨assigned, scopes⟩ := opens.scopes
  refine ⟨_, _, scopes, ?_⟩
  have := congrArg List.length opens.operands
  simp at this
  simp [this]

/-- How an operator that opens a block opens it. -/
def Opened.ofOperator : Operator → Option (Opened × BlockType)
  | .block ty => some (.block, ty)
  | .loop ty => some (.loop, ty)
  | .ifBlock ty => some (.ifArm, ty)
  | _ => none

theorem operator_opens {ty : BlockType} (is : Opened.ofOperator o = some (opened, ty))
    (rooted : k.Rooted)
    (h : operator o k = .ok ((), k')) : ∃ k₁ fty, k.Stays k₁ ∧ Opens k₁ k' opened fty := by
  cases o with
  | block ty | loop ty =>
    cases is
    obtain ⟨fty, k₁, first, h⟩ := Local.bind_ok rooted h
    obtain ⟨_, k₂, second, h⟩ := Local.bind_ok first.rooted h
    exact ⟨k₂, fty, first.trans second, pushScope_opens _ _ h⟩
  | ifBlock ty =>
    cases is
    obtain ⟨fty, k₁, first, h⟩ := Local.bind_ok rooted h
    obtain ⟨_, k₂, second, h⟩ := Local.bind_ok first.rooted h
    obtain ⟨_, k₃, third, h⟩ := Local.bind_ok second.rooted h
    exact ⟨k₃, fty, (first.trans second).trans third, pushScope_opens _ _ h⟩
  | _ => cases is

/-- A reachable frame without operands gives none. -/
theorem popAll_base {rest : List Scope} {types : List Ty} (scopes : k.scopes = sc :: rest)
    (base : k.operands.size = sc.height)
    (reached : sc.unreachable = false) (h : popAll types k = .ok ((), k')) : types = [] := by
  unfold popAll at h
  cases rev : types.reverse with
  | nil => exact reverse_eq_nil_iff.1 rev
  | cons ty more =>
    rw [rev] at h
    obtain ⟨_, k₁, first, -⟩ := bind_ok h
    obtain ⟨_, k₂, first, -⟩ := bind_ok first
    obtain ⟨o, k₃, first, -⟩ := bind_ok first
    rcases popAny_ok scopes first with ⟨-, dead, -⟩ | ⟨other, -⟩
    · rw [reached] at dead; cases dead
    · exact absurd base other

/-- The last part of an `end`: the results are put on what lies below. -/
theorem results_ok {types : List Ty} (h : (do
      pushAll types
      modify fun s =>
        if s.scopes.isEmpty && s.closedAt.isNone then { s with closedAt := some s.offset } else s :
          Check Unit) k = .ok ((), k')) :
    k'.ctx = k.ctx ∧ k'.locals = k.locals ∧ k'.scopes = k.scopes ∧
      k'.operands.toList = k.operands.toList ++ types.map Operand.known := by
  rw [bind_apply _ (pushAll_apply _ _), modify_apply] at h
  cases h
  dsimp only
  split <;> simp

theorem close_ok (rooted : k.Rooted) (h : operator .close k = .ok ((), k')) :
    ∃ frame outer k₁, k.scopes = frame :: outer ∧ popAll frame.ty.results k = .ok ((), k₁) ∧
      k₁.operands.size = frame.height ∧ Closes k k' frame outer frame.ty.results ∧
      (frame.opened = .ifArm → frame.ty.params = [] → frame.ty.results = []) := by
  obtain ⟨frame, k₂, popped, h⟩ := bind_ok h
  obtain ⟨outer, k₁, scopes, results, size, closed⟩ := popScope_ok rooted popped
  have operands₂ := closed.operands
  simp only [map_nil, append_nil] at operands₂
  refine ⟨frame, outer, k₁, scopes, results, size, ?_⟩
  dsimp only at h
  split at h
  · -- the missing arm is an empty one
    rw [bind_apply _ (pushScope_apply _ _ _)] at h
    obtain ⟨frame', k₃, popped', h⟩ := bind_ok h
    have opens := pushScope_opens _ _ (pushScope_apply .elseArm frame.ty k₂)
    obtain ⟨outer', k₄, scopes', results', size', closed'⟩ := popScope_ok opens.rooted popped'
    cases scopes'
    obtain ⟨ctx, locals, scopes₅, operands⟩ := results_ok h
    have below : k₃.operands.toList = k₂.operands.toList := by
      rw [closed'.operands]
      simp
    refine ⟨⟨ctx.trans (closed'.ctx.trans closed.ctx),
      locals.trans (closed'.locals.trans closed.locals),
      scopes₅.trans (closed'.scopes.trans closed.scopes), by rw [operands, below, operands₂]⟩,
      fun _ none => ?_⟩
    exact popAll_base rfl (by simp [none]) rfl results'
  · next other =>
    obtain ⟨ctx, locals, scopes₃, operands⟩ := results_ok h
    exact ⟨⟨ctx.trans closed.ctx, locals.trans closed.locals, scopes₃.trans closed.scopes,
      by rw [operands, operands₂]⟩, fun is => absurd is other⟩

theorem elseArm_ok (rooted : k.Rooted) (h : operator .elseArm k = .ok ((), k')) :
    ∃ frame outer k₁ k₂, k.scopes = frame :: outer ∧ popAll frame.ty.results k = .ok ((), k₁) ∧
      k₁.operands.size = frame.height ∧ frame.opened = .ifArm ∧ Closes k k₂ frame outer [] ∧
        Opens k₂ k' .elseArm frame.ty := by
  obtain ⟨frame, k₂, popped, h⟩ := bind_ok h
  obtain ⟨outer, k₁, scopes, results, size, closed⟩ := popScope_ok rooted popped
  obtain ⟨is, h⟩ := demand_ok h
  exact ⟨frame, outer, k₁, k₂, scopes, results, size, by simpa using is, closed,
    pushScope_opens _ _ h⟩

/-! ### Code -/

/-- Operators one after another, none of them after the end of the function. -/
def each (ops : List Placed) : Check Unit :=
  ops.forM fun (o, place) => do
    let _ ← scope
    modify fun s => { s with offset := place }
    operator o

theorem each_cons_ok (h : each ((o, place) :: rest) k = .ok ((), k')) :
    ∃ k₁, operator o { k with offset := place } = .ok ((), k₁) ∧ each rest k₁ = .ok ((), k') := by
  obtain ⟨_, k₁, first, h⟩ := bind_ok h
  obtain ⟨_, _, here, first⟩ := bind_ok first
  rw [(scope_ok here).1, bind_apply _ (modify_apply _)] at first
  exact ⟨k₁, first, h⟩

theorem each_append_ok (h : each (first ++ rest) k = .ok ((), k')) :
    ∃ k₁, each first k = .ok ((), k₁) ∧ each rest k₁ = .ok ((), k') := forM_append_ok h

/-- Where the function has ended nothing more is read. -/
theorem each_ended {ops : List Placed} (none : k.scopes = []) (h : each ops k = .ok ((), k')) :
    ops = [] := by
  cases ops with
  | nil => rfl
  | cons p rest =>
    obtain ⟨_, k₁, first, -⟩ := bind_ok h
    obtain ⟨sc, k₀, here, -⟩ := bind_ok first
    obtain ⟨-, more, scopes⟩ := scope_ok here
    rw [none] at scopes
    cases scopes

/-- A block in the code: what opens it, its inside, and what ends it. -/
theorem each_block_ok {stop : Operator} {stopPlace : Nat} {body : List Placed}
    (h : each ((o, place) :: (body ++ (stop, stopPlace) :: rest)) k = .ok ((), k')) :
    ∃ k₁ k₂ k₃, operator o { k with offset := place } = .ok ((), k₁) ∧ each body k₁ = .ok ((), k₂) ∧
      operator stop { k₂ with offset := stopPlace } = .ok ((), k₃) ∧
        each rest k₃ = .ok ((), k') := by
  obtain ⟨k₁, first, h⟩ := each_cons_ok h
  obtain ⟨k₂, inside, h⟩ := each_append_ok h
  obtain ⟨k₃, last, h⟩ := each_cons_ok h
  exact ⟨k₁, k₂, k₃, first, inside, last, h⟩

theorem Local.placed (l : Local (operator o))
    (rooted : k.Rooted) (h : operator o { k with offset := place } = .ok ((), k')) : k.Stays k' :=
  (l.stays (k := { k with offset := place }) rooted h).unplaced

end Check

/-- The code of a block leaves its frame with the results on what lay below. -/
theorem Checker.Stays.enclosed {k₁ k₂ k₃ k₄ : Checker} {ty : FuncType} {frame : Scope}
    {outer : List Scope} {results : List Ty} (stays : k.Stays k₁)
    (opens : Check.Opens k₁ k₂ opened ty)
    (inside : k₂.Stays k₃) (scopes : k₃.scopes = frame :: outer)
    (closes : Check.Closes k₃ k₄ frame outer results) : k.Stays k₄ := by
  obtain ⟨sc, rest, u, here, there, le, same⟩ := stays.frame
  obtain ⟨assigned, scopes₂⟩ := opens.scopes
  obtain ⟨sc', rest', u', here', there', le', same'⟩ := inside.frame
  rw [scopes₂] at here'
  cases here'
  rw [there'] at scopes
  cases scopes
  have below : k₃.operands.toList.take k₁.operands.size = k₁.operands.toList := by
    rw [same', opens.operands, take_append_of_le_length (by simp), take_of_length_le (by simp)]
  have operands := closes.operands
  simp only [below] at operands
  refine ⟨?_, ?_, sc, rest, u, here, closes.scopes.trans there, ?_, ?_⟩
  · exact closes.ctx.trans (inside.ctx.trans (opens.ctx.trans stays.ctx))
  · exact closes.locals.trans (inside.locals.trans (opens.locals.trans stays.locals))
  · have := congrArg List.length operands
    simp at this
    omega
  · rw [operands, take_append_of_le_length (by simpa using le)]
    exact same

/-- A block as a whole works on the frame that it stands in. -/
theorem Check.enclosed_stays {ty : BlockType} {close : Nat}
    {k₁ k₂ k₃ : Checker} (is : Opened.ofOperator o = some (opened, ty)) (rooted : k.Rooted)
    (first : operator o { k with offset := place } = .ok ((), k₁))
    (inside : k₁.Rooted → k₁.Stays k₂)
    (last : operator .close { k₂ with offset := close } = .ok ((), k₃)) : k.Stays k₃ := by
  obtain ⟨k₀, fty, stays, opens⟩ := operator_opens (k := { k with offset := place }) is rooted first
  have inner := (inside opens.rooted).placed close
  obtain ⟨frame, outer, _, scopes, _, _, closes, _⟩ := close_ok inner.rooted last
  exact .enclosed stays.unplaced opens inner scopes closes

/-- Operators among which none opens a block with handlers. -/
def Flat (ops : List Placed) : Prop := ∀ p ∈ ops, Check.opensHandler p.1 = false

theorem Flat.left (flat : Flat (first ++ rest)) : Flat first :=
  fun p mem => flat p (mem_append_left _ mem)

theorem Flat.right (flat : Flat (first ++ rest)) : Flat rest :=
  fun p mem => flat p (mem_append_right _ mem)

theorem Flat.tail {p : Placed} (flat : Flat (p :: rest)) : Flat rest :=
  fun q mem => flat q (mem_cons_of_mem _ mem)

namespace Tree

/-- The code of a block works on the innermost frame only. -/
theorem stays {t : Tree} (plain : t.Plain) (flat : Flat t.ops) (rooted : k.Rooted)
    (h : Check.each t.ops k = .ok ((), k')) : k.Stays k' := by
  induction t generalizing k k' with
  | done => cases h; exact rooted.stays
  | op o place rest ih =>
    obtain ⟨k₁, one, more⟩ := Check.each_cons_ok h
    have first : k.Stays k₁ :=
      (Check.local_operator plain.1 (flat (o, place) mem_cons_self)).placed rooted one
    exact first.trans (ih plain.2 flat.tail first.rooted more)
  | block ty place body close rest ihBody ihRest | loop ty place body close rest ihBody ihRest
  | ifThen ty place body close rest ihBody ihRest =>
    obtain ⟨k₁, k₂, k₃, first, inside, last, more⟩ := Check.each_block_ok h
    have whole := Check.enclosed_stays rfl rooted first
      (fun opened => ihBody plain.1 flat.tail.left opened inside) last
    exact whole.trans (ihRest plain.2 flat.tail.right.tail whole.rooted more)
  | ifElse ty place arm middle other close rest ihArm ihOther ihRest =>
    obtain ⟨k₁, k₂, k₃, first, inside, between, h⟩ := Check.each_block_ok h
    obtain ⟨k₄, inside', h⟩ := Check.each_append_ok h
    obtain ⟨k₅, last, more⟩ := Check.each_cons_ok h
    obtain ⟨k₀, fty, stays, opens⟩ :=
      Check.operator_opens (k := { k with offset := place }) rfl rooted first
    have inner := (ihArm plain.1 flat.tail.left opens.rooted inside).placed middle
    obtain ⟨frame, outer, _, k₂', scopes, _, _, _, closes, opens'⟩ :=
      Check.elseArm_ok inner.rooted between
    have before : k.Stays k₂' := .enclosed stays.unplaced opens inner scopes closes
    have inner' := (ihOther plain.2.1 flat.tail.right.tail.left opens'.rooted inside').placed close
    obtain ⟨frame', outer', _, scopes', _, _, closes', _⟩ := Check.close_ok inner'.rooted last
    have whole : k.Stays k₅ := .enclosed before opens' inner' scopes' closes'
    exact whole.trans (ihRest plain.2.2 flat.tail.right.tail.right.tail whole.rooted more)

end Tree
end Wasmill.Wasm
