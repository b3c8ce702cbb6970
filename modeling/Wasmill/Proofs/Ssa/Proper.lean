import Wasmill.Proofs.Ssa.Building
import Wasmill.Ssa.Compile

/-! Functions that are compiled.

What the builder adds to a function calls what is declared, is blamed on the operator at hand and
does not pass for an overflow of the stack. Nothing of it is taken away again. A body need not be
valid for that; it only has to be compiled. -/
namespace Wasmill.Ssa
open Steps Option Array

/-! ### Proper functions -/

/-- The values that an instruction reads. -/
def Inst.operands : Inst → List Value
  | .const _ | .globalGet _ _ | .memorySize | .interruptCheck => []
  | .unary _ a | .convert _ a | .load _ a _ | .globalSet _ _ a | .memoryGrow a | .splat _ a
  | .extractLane _ _ _ a => [a]
  | .binary _ a b | .store _ a b _ | .replaceLane _ _ a b | .shuffle a b _ => [a, b]
  | .select c a b => [c, a, b]
  | .call _ args | .callImport _ _ args => args
  | .callIndirect _ _ _ index args => index :: args

/-- The values that an exit reads itself. -/
def Exit.operands : Exit → List Value
  | .jump _ | .trap _ => []
  | .branch v _ _ | .table v _ _ => [v]
  | .ret v => v.toList

/-- What an instruction calls is declared, and a shuffle has all its lanes. -/
def Inst.Proper (env : Env) : Inst → Prop
  | .call callee _ => callee < env.funcs.size
  | .callIndirect ty _ _ _ _ => ty < env.sigs.size
  | .shuffle _ _ lanes => lanes.length = 16
  | _ => True

/-- Module offsets are kept in 32 bits, and stacks overflow in prologues only. -/
structure Block.Proper (env : Env) (b : Block) : Prop where
  steps : ∀ s ∈ b.steps.toList, s.inst.Proper env ∧ s.srcloc < UInt32.size
  leave : ∀ l, b.leave = some l → l.exit ≠ .trap .stackOverflow ∧ l.srcloc < UInt32.size

structure Function.Proper (env : Env) (f : Function) : Prop where
  blocks : ∀ b ∈ f.blocks.toList, b.Proper env
  srcloc : f.srcloc < UInt32.size

/-- The module offset that an instruction of a block is blamed on: that of a step, or of the exit.
-/
def Block.srclocAt (b : Block) : Option Nat → Option Nat
  | some k => b.steps[k]?.map (·.srcloc)
  | none => b.leave.map (·.srcloc)

/-- A block goes on: its exit stays up to edges, and what is new in it is proper and blamed on one
place. -/
structure Block.Onto (env : Env) (place : Nat) (b b' : Block) : Prop where
  fresh : ∀ (i : Nat) step, b'.steps[i]? = some step →
    b.steps[i]? = some step ∨ step.inst.Proper env ∧ step.srcloc = place
  leave : ∀ l, b'.leave = some l →
    (∃ l', b.leave = some l' ∧ l'.exit.bare = l.exit.bare ∧ l'.srcloc = l.srcloc) ∨
      l.exit ≠ .trap .stackOverflow ∧ l.srcloc = place
  left : b'.leave = none → b.leave = none

/-- A function with as many blocks, all of which go on. -/
structure Function.BlocksOnto (env : Env) (place : Nat) (f g : Function) : Prop where
  size : g.blocks.size = f.blocks.size
  srcloc : g.srcloc = f.srcloc
  onto : ∀ b, (f.block b).Onto env place (g.block b)

theorem Exit.eq_trap_of_bare {exit : Exit} {t : Trap} (same : exit.bare = (Exit.trap t).bare) :
    exit = .trap t := by
  cases exit <;> cases same
  rfl

namespace Block
variable {env : Env} {place : Nat} {b b' b'' : Block}

theorem Onto.srclocAt {loc : Nat} (onto : b.Onto env place b') {k : Option Nat}
    (is : b'.srclocAt k = some loc) :
    b.srclocAt k = some loc ∨ loc = place := by
  cases k with
  | some k =>
    obtain ⟨step, there, rfl⟩ := map_eq_some_iff.1 is
    exact (onto.fresh k step there).imp (fun old => map_eq_some_iff.2 ⟨step, old, rfl⟩) And.right
  | none =>
    obtain ⟨l, there, rfl⟩ := map_eq_some_iff.1 is
    exact (onto.leave l there).imp (fun ⟨l', old, _, same⟩ =>
      map_eq_some_iff.2 ⟨l', old, same⟩) And.right

theorem Onto.refl (env : Env) (place : Nat) (b : Block) : b.Onto env place b :=
  ⟨fun _ _ is => .inl is, fun l is => .inl ⟨l, is, rfl, rfl⟩, fun is => is⟩

theorem Onto.trans (first : b.Onto env place b') (second : b'.Onto env place b'') :
    b.Onto env place b'' where
  fresh i step is := by
    rcases second.fresh i step is with is | new
    · exact first.fresh i step is
    · exact .inr new
  leave l is := by
    rcases second.leave l is with ⟨l', is', exit, same⟩ | new
    · refine (first.leave l' is').imp (fun ⟨l₀, is₀, exit₀, same₀⟩ => ?_) fun ⟨other, new⟩ => ?_
      · exact ⟨l₀, is₀, exit₀.trans exit, same₀.trans same⟩
      · refine ⟨fun trap => ?_, same ▸ new⟩
        rw [trap] at exit
        exact other (Exit.eq_trap_of_bare exit)
    · exact .inr new
  left is := first.left (second.left is)

theorem Onto.proper (small : place < UInt32.size) (onto : b.Onto env place b')
    (proper : b.Proper env) : b'.Proper env where
  steps step mem := by
    obtain ⟨i, is⟩ := List.getElem?_of_mem mem
    rw [getElem?_toList] at is
    rcases onto.fresh i step is with old | ⟨fits, rfl⟩
    · exact proper.steps step (mem_toList_of_at old)
    · exact ⟨fits, small⟩
  leave l is := by
    rcases onto.leave l is with ⟨l', old, exit, same⟩ | ⟨other, rfl⟩
    · obtain ⟨other, small⟩ := proper.leave l' old
      refine ⟨fun trap => other ?_, same ▸ small⟩
      rw [trap] at exit
      exact Exit.eq_trap_of_bare exit
    · exact ⟨other, small⟩

end Block

namespace Function
variable {env : Env} {place : Nat} {f g h : Function} {change : Block → Block}

theorem block_mem {b : Nat} (lt : b < f.blocks.size) : f.block b ∈ f.blocks.toList := by
  simp [block, getD_eq_getD_getElem?, lt]

theorem Proper.onto (proper : f.Proper env) (small : place < UInt32.size)
    (same : g.srcloc = f.srcloc)
    (onto : ∀ b, (f.block b).Onto env place (g.block b)) : g.Proper env where
  blocks b mem := by
    obtain ⟨i, is⟩ := List.getElem?_of_mem mem
    rw [getElem?_toList] at is
    obtain rfl : g.block i = b := by simp [block, getD_eq_getD_getElem?, is]
    refine (onto i).proper small ?_
    rcases Nat.lt_or_ge i f.blocks.size with lt | ge
    · exact proper.blocks _ (block_mem lt)
    · rw [block_of_le _ ge]
      exact ⟨by simp, by simp⟩
  srcloc := same ▸ proper.srcloc

theorem BlocksOnto.of_blocks (same : g.blocks = f.blocks) (srcloc : g.srcloc = f.srcloc) :
    BlocksOnto env place f g :=
  ⟨by rw [same], srcloc, fun b => by unfold block; rw [same]; exact .refl ..⟩

theorem BlocksOnto.trans (first : BlocksOnto env place f g) (second : BlocksOnto env place g h) :
    BlocksOnto env place f h :=
  ⟨second.size.trans first.size, second.srcloc.trans first.srcloc,
    fun b => (first.onto b).trans (second.onto b)⟩

theorem onto_modifyBlock (c : Nat) (onto : ∀ b : Block, b.Onto env place (change b)) :
    BlocksOnto env place f (f.modifyBlock c change) := by
  refine ⟨modifyBlock_size .., rfl, fun b => ?_⟩
  rw [block_modifyBlock]
  split
  · exact onto _
  · exact .refl ..

/-- Only the parameters of a block change. -/
theorem onto_params (c : Nat) (params : Array Value → Array Value) :
    BlocksOnto env place f (f.modifyBlock c fun b => { b with params := params b.params }) :=
  onto_modifyBlock c fun b => { Block.Onto.refl env place b with }

theorem onto_newParam (c : Nat) (ty : ValType) : BlocksOnto env place f (f.newParam c ty).2 :=
  BlocksOnto.trans (g := (f.newValue ty).2) (.of_blocks rfl rfl)
    (onto_params c (·.push f.values.size))

theorem onto_modifyEdge (r : EdgeRef) (change : Option Edge → Option Edge) :
    BlocksOnto env place f (f.modifyEdge r change) := by
  refine onto_modifyBlock r.block fun b => ⟨fun _ _ is => .inl is, fun l is => .inl ?_,
    map_eq_none_iff.1⟩
  obtain ⟨l', old, rfl⟩ := map_eq_some_iff.1 is
  exact ⟨l', old, (Exit.bare_modifyEdge ..).symm, rfl⟩

theorem onto_foldl {α : Type} {step : Function → α → Function}
    (one : ∀ f a, BlocksOnto env place f (step f a)) (l : List α)
    (f : Function) : BlocksOnto env place f (l.foldl step f) := by
  induction l generalizing f with
  | nil => exact .of_blocks rfl rfl
  | cons a l ih => exact (one f a).trans (ih _)

/-- Dropping the parameters of a loop header changes nothing else than parameters and arguments. -/
theorem onto_pruneLoop (header : Nat) (edges : List EdgeRef) :
    BlocksOnto env place f (f.pruneLoop header edges) := by
  have drop (f : Function) (index : Nat) (param v : Value) :
      BlocksOnto env place f (f.dropParam header edges index param v) := by
    refine .trans ?_ (onto_foldl (fun f r => onto_modifyEdge r _) edges _)
    refine BlocksOnto.trans (.of_blocks ?_ ?_) (onto_params header (·.eraseIdxIfInBounds index))
    · rfl
    · rfl
  have round (f : Function) : BlocksOnto env place f (f.pruneRound header edges) := by
    refine onto_foldl (fun f p => ?_) _ f
    dsimp only
    split
    · exact drop ..
    · exact .of_blocks rfl rfl
  have rounds (n : Nat) (f : Function) : BlocksOnto env place f (pruneRounds header edges n f) := by
    induction n generalizing f with
    | zero => exact .of_blocks rfl rfl
    | succ n ih =>
      rw [pruneRounds]
      split
      · exact round f
      · exact (round f).trans (ih _)
  exact rounds _ f

end Function
end Wasmill.Ssa
