import Wasmill.Proofs.Ssa.Building
import Wasmill.Ssa.Compile

/-! Code without the places it came from.

Places in the source are written down with the code and never looked at: what is compiled is the
same wherever the operators stand. -/
namespace Wasmill.Ssa
open Steps Array

def Block.bare (b : Block) : Block :=
  { b with steps := b.steps.map ({ · with srcloc := 0 }), leave :=
    b.leave.map ({ · with srcloc := 0 }) }

def Function.bare (f : Function) : Function :=
  { f with blocks := f.blocks.map Block.bare, srcloc := 0 }

def Builder.bare (s : Builder) : Builder := { s with func := s.func.bare, srcloc := 0 }

namespace Function
variable {f : Function} {b : Nat}

theorem bare_block : f.bare.block b = (f.block b).bare := by
  unfold block bare
  rw [getD_eq_getD_getElem?, getD_eq_getD_getElem?, getElem?_map]
  cases f.blocks[b]? <;> simp [Block.bare]

theorem bare_modifyBlock (f : Function) (b : Nat) (g g' : Block → Block)
    (same : ∀ b, g' b.bare = (g b).bare) :
    f.bare.modifyBlock b g' = (f.modifyBlock b g).bare := by
  unfold modifyBlock bare
  congr 1
  ext1
  · simp
  · next i _ _ =>
    simp only [getElem_modify, getElem_map]
    split
    · exact same _
    · rfl

theorem bare_modifyEdge {e : EdgeRef}
    {g : Option Edge → Option Edge} : f.bare.modifyEdge e g = (f.modifyEdge e g).bare := by
  refine bare_modifyBlock _ _ _ _ fun b => ?_
  cases is : b.leave <;> simp [Block.bare, is]

theorem bare_edge? {e : EdgeRef} : f.bare.edge? e = f.edge? e := by
  unfold edge?
  rw [bare_block]
  cases is : (f.block e.block).leave <;> simp [Block.bare, is]

theorem bare_newBlock : f.bare.newBlock = f.newBlock.map id bare := by
  simp [newBlock, bare, Block.bare]

theorem bare_newParam {ty : ValType} : f.bare.newParam b ty = (f.newParam b ty).map id bare := by
  have push :=
    bare_modifyBlock (f.newValue ty).2 b (fun b => { b with params := b.params.push f.values.size })
    (fun b => { b with params := b.params.push f.values.size }) fun _ => rfl
  exact congrArg (Prod.mk _) push

theorem bare_resolve : f.bare.resolve = f.resolve := by
  have follow (n : Nat) (v : Value) : f.bare.follow n v = f.follow n v := by
    induction n generalizing v with
    | zero => rfl
    | succ n ih =>
      unfold Function.follow
      rw [show f.bare.sameAs v = f.sameAs v from rfl]
      split
      · exact ih _
      · rfl
  exact funext (follow _)

theorem bare_pruneLoop {edges : List EdgeRef} :
    f.bare.pruneLoop b edges = (f.pruneLoop b edges).bare := by
  have params (f : Function) : (f.bare.block b).params = (f.block b).params := by
    rw [bare_block]; rfl
  have incoming (f : Function) (i : Nat) : f.bare.incoming i = f.incoming i := by
    funext e
    unfold incoming
    rw [bare_edge?, bare_resolve]
  have drop (f : Function) (i : Nat) (p v : Value) :
      f.bare.dropParam b edges i p v = (f.dropParam b edges i p v).bare := by
    unfold dropParam
    dsimp only
    generalize is :
      ({ f with values := f.values.modify p fun d => { d with sameAs := some v } } : Function) = f'
    rw [show ({ f.bare with values := f.bare.values.modify p fun d =>
      { d with sameAs := some v } } : Function) = f'.bare from
      is ▸ rfl, bare_modifyBlock f' b
        (fun b => { b with params := b.params.eraseIdxIfInBounds i }) _ fun _ => rfl]
    generalize f'.modifyBlock b _ = f''
    induction edges generalizing f'' with
    | nil => rfl
    | cons e edges ih => rw [List.foldl_cons, bare_modifyEdge, ih, List.foldl_cons]
  have round (f : Function) : f.bare.pruneRound b edges = (f.pruneRound b edges).bare := by
    unfold pruneRound
    dsimp only
    rw [params]
    generalize List.reverse _ = all
    induction all generalizing f with
    | nil => rfl
    | cons p all ih =>
      rw [List.foldl_cons, List.foldl_cons, ← ih]
      congr 1
      rw [show f.bare.soleValue edges p.1 p.2 = f.soleValue edges p.1 p.2 by
        unfold soleValue; rw [incoming]]
      cases f.soleValue edges p.1 p.2 with
      | none => rfl
      | some v => exact drop f p.1 p.2 v
  have rounds (n : Nat) (f : Function) :
      pruneRounds b edges n f.bare = (pruneRounds b edges n f).bare := by
    induction n generalizing f with
    | zero => rfl
    | succ n ih =>
      simp only [pruneRounds, round, params, ih]
      split <;> rfl
  unfold pruneLoop
  rw [params, rounds]

end Function

namespace Build
variable {α : Type} {x : Build α} {s t : Builder} {a : α}

/-- From a state that differs in places only, the computation gives the same. -/
def Likewise (x : Build α) (s : Builder) (a : α) (t : Builder) : Prop :=
  ∀ s', s'.bare = s.bare → ∃ t', x s' = .ok (a, t') ∧ t'.bare = t.bare

/-- The computation looks at no places. -/
def Blind (x : Build α) : Prop :=
  ∀ s, (x s.bare).toOption = (x s).toOption.map (Prod.map id Builder.bare)

theorem Blind.likewise (blind : Blind x) (is : x s = .ok (a, t)) : Likewise x s a t := by
  intro s' same
  have here := blind s
  rw [← same, blind s', is] at here
  cases is' : x s' with
  | error e => rw [is'] at here; cases here
  | ok r =>
    rw [is'] at here
    obtain ⟨b, t'⟩ := r
    obtain ⟨rfl, last⟩ := Prod.mk.inj (Option.some.inj here)
    exact ⟨t', rfl, last⟩

theorem blind_bind {β : Type} {f : α → Build β} (first : Blind x) (rest : ∀ a, Blind (f a)) :
    Blind (x >>= f) := by
  intro s
  have here := first s
  cases is : x s with
  | error e =>
    rw [is] at here
    cases is' : x s.bare with
    | error e' => simp only [bind, StateT.bind, Except.bind, is, is']; rfl
    | ok r => rw [is'] at here; cases here
  | ok r =>
    rw [is] at here
    cases is' : x s.bare with
    | error e' => rw [is'] at here; cases here
    | ok r' =>
      rw [is'] at here
      cases here
      rw [bind_apply _ is', bind_apply _ is]
      exact rest r.1 r.2

/-- A computation that first looks at the state, though not at places. -/
theorem blind_get {f : Builder → Build α} (same : ∀ s : Builder, f s.bare = f s)
    (rest : ∀ s, Blind (f s)) : Blind (get >>= f) := by
  intro s
  rw [bind_apply _ get_apply, bind_apply _ get_apply, same]
  exact rest s s

theorem blind_modify {g : Builder → Builder} (same : ∀ s, g s.bare = (g s).bare) :
    Blind (modify g : Build PUnit) :=
  fun s => congrArg (fun t => some (PUnit.unit, t)) (same s)

/-- The function gets something new. -/
theorem blind_new {g : Function → α × Function}
    (same : ∀ f, g f.bare = (g f).map id Function.bare) :
    Blind (do
      let s ← get
      set { s with func := (g s.func).2 }
      return (g s.func).1 : Build α) := by
  intro s
  rw [bind_apply _ get_apply, bind_apply _ get_apply, show g s.bare.func = _ from same s.func]
  rfl

theorem blind_pop : Blind pop := fun ⟨_, _, _, _, _, stack, _⟩ => by cases stack <;> rfl

theorem blind_peek : Blind peek := fun ⟨_, _, _, _, _, stack, _⟩ => by cases stack <;> rfl

theorem blind_popMany (n : Nat) : Blind (popMany n) := by
  intro s
  show ((if s.stack.length < n then _ else _ : Build _) s.bare).toOption =
    ((if s.stack.length < n then _ else _ : Build _) s).toOption.map _
  split <;> rfl

theorem blind_append (inst : Inst) (result : Option Value) : Blind (append inst result) := by
  refine blind_modify fun ⟨func, current, srcloc, _, _, _, _⟩ => ?_
  cases current with
  | none => rfl
  | some b =>
    have same := Function.bare_modifyBlock func b
      (fun block => { block with steps := block.steps.push ⟨inst, result, srcloc⟩ })
      (fun block => { block with steps := block.steps.push ⟨inst, result, 0⟩ }) fun _ => by
        simp [Block.bare]
    exact congrArg (Builder.mk · _ _ _ _ _ _) same

theorem blind_leave (exit : Exit) : Blind (leave exit) :=
  fun ⟨func, current, srcloc, _, _, _, _⟩ => by
  cases current with
  | none => rfl
  | some b =>
    have same :=
      Function.bare_modifyBlock func b (fun block => { block with leave := some ⟨exit, srcloc⟩ })
      (fun block => { block with leave := some ⟨exit, 0⟩ }) fun _ => rfl
    exact congrArg (fun f => some (b, Builder.mk f _ _ _ _ _ _)) same

theorem blind_setLocal (index : Nat) (v : Value) : Blind (setLocal index v) := by
  intro s
  show ((if index < s.locals.size then _ else _ : Build _) s.bare).toOption =
    ((if index < s.locals.size then _ else _ : Build _) s).toOption.map _
  split <;> rfl

end Build
end Wasmill.Ssa
