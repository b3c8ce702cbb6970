import Mathlib.Algebra.GroupWithZero.Nat
import Wasmill.Wasm.Body

/-! The nesting of operators.

A body is a list of operators in which `block`, `loop` and `if` are closed by an `end` of their own.
A `Tree` has the code between them as a part, and every operator has its module offset. -/
namespace Wasmill.Wasm

/-- An operator with its module offset. -/
abbrev Placed := Operator × Nat

/-- A sequence of operators, up to where the block around it ends. -/
inductive Tree
  | done
  | op (o : Operator) (place : Nat) (rest : Tree)
  | block (ty : BlockType) (place : Nat) (body : Tree) (close : Nat) (rest : Tree)
  | loop (ty : BlockType) (place : Nat) (body : Tree) (close : Nat) (rest : Tree)
  | ifThen (ty : BlockType) (place : Nat) (arm : Tree) (close : Nat) (rest : Tree)
  | ifElse (ty : BlockType) (place : Nat) (arm : Tree) (middle : Nat) (other : Tree) (close : Nat)
      (rest : Tree)

/-- Operators that neither open nor close a block. -/
def Operator.isPlain : Operator → Bool
  | .block _ | .loop _ | .ifBlock _ | .elseArm | .close => false
  | _ => true

namespace Tree

/-- The operators in the order in which they are written. -/
def ops : Tree → List Placed
  | done => []
  | op o place rest => (o, place) :: rest.ops
  | block ty place body close rest =>
    (.block ty, place) :: (body.ops ++ (.close, close) :: rest.ops)
  | loop ty place body close rest =>
    (.loop ty, place) :: (body.ops ++ (.close, close) :: rest.ops)
  | ifThen ty place arm close rest =>
    (.ifBlock ty, place) :: (arm.ops ++ (.close, close) :: rest.ops)
  | ifElse ty place arm middle other close rest =>
    (.ifBlock ty, place) ::
      (arm.ops ++ (.elseArm, middle) :: (other.ops ++ (.close, close) :: rest.ops))

/-- Blocks are opened by nodes of their own only. -/
def Plain : Tree → Prop
  | done => True
  | op o _ rest => o.isPlain ∧ rest.Plain
  | block _ _ body _ rest | loop _ _ body _ rest | ifThen _ _ body _ rest => body.Plain ∧ rest.Plain
  | ifElse _ _ arm _ other _ rest => arm.Plain ∧ other.Plain ∧ rest.Plain

/-- The place of an `end` and what follows it. -/
def closing : List Placed → Option (Nat × List Placed)
  | (.close, place) :: ops => some (place, ops)
  | _ => none

/-- The tree of the operators up to the `else` or `end` that ends them, and what is left from there
on. Each operator takes one of the `fuel`. -/
def parse : (fuel : Nat) → List Placed → Option (Tree × List Placed)
  | 0, _ | _, [] => none
  | fuel + 1, (o, place) :: ops =>
    match o with
    | .close | .elseArm => some (done, (o, place) :: ops)
    | .block ty => do
      let (body, ops) ← parse fuel ops
      let (close, ops) ← closing ops
      let (rest, ops) ← parse fuel ops
      return (block ty place body close rest, ops)
    | .loop ty => do
      let (body, ops) ← parse fuel ops
      let (close, ops) ← closing ops
      let (rest, ops) ← parse fuel ops
      return (loop ty place body close rest, ops)
    | .ifBlock ty => do
      let (arm, ops) ← parse fuel ops
      match ops with
      | (.elseArm, middle) :: ops =>
        let (other, ops) ← parse fuel ops
        let (close, ops) ← closing ops
        let (rest, ops) ← parse fuel ops
        return (ifElse ty place arm middle other close rest, ops)
      | ops =>
        let (close, ops) ← closing ops
        let (rest, ops) ← parse fuel ops
        return (ifThen ty place arm close rest, ops)
    | o => do
      let (rest, ops) ← parse fuel ops
      return (op o place rest, ops)

/-- The tree of a function body, which its last `end` closes. -/
def ofOps (ops : List Placed) : Option Tree :=
  match parse ops.length ops with
  | some (t, [(.close, _)]) => some t
  | _ => none

/-- Parsing finds every tree again: its operators have no other nesting. -/
theorem parse_ops {t : Tree} (plain : t.Plain) {stop : Operator}
    (ends : stop = .close ∨ stop = .elseArm)
    (place : Nat) (rest : List Placed) {fuel : Nat} (enough : t.ops.length < fuel) :
    parse fuel (t.ops ++ (stop, place) :: rest) = some (t, (stop, place) :: rest) := by
  induction t generalizing stop place rest fuel with
  | done =>
    obtain ⟨fuel, rfl⟩ : ∃ n, fuel = n + 1 := ⟨fuel - 1, by simp [ops] at enough; omega⟩
    rcases ends with rfl | rfl <;> rfl
  | op o at' more ih =>
    obtain ⟨fuel, rfl⟩ : ∃ n, fuel = n + 1 := ⟨fuel - 1, by omega⟩
    have deeper :=
      ih plain.2 ends place rest (show more.ops.length < fuel by simp [ops] at enough; omega)
    have flat := plain.1
    cases o <;> simp_all [parse, ops, Operator.isPlain]
  | block _ _ body close more ihBody ihMore | loop _ _ body close more ihBody ihMore
  | ifThen _ _ body close more ihBody ihMore =>
    obtain ⟨fuel, rfl⟩ : ∃ n, fuel = n + 1 := ⟨fuel - 1, by omega⟩
    simp only [ops, List.length_cons, List.length_append] at enough
    have inner := ihBody plain.1 (.inl rfl) close (more.ops ++ (stop, place) :: rest)
      (show body.ops.length < fuel by omega)
    have deeper := ihMore plain.2 ends place rest (show more.ops.length < fuel by omega)
    simp [parse, ops, inner, closing, deeper]
  | ifElse ty at' arm middle other close more ihArm ihOther ihMore =>
    obtain ⟨fuel, rfl⟩ : ∃ n, fuel = n + 1 := ⟨fuel - 1, by omega⟩
    simp only [ops, List.length_cons, List.length_append] at enough
    have first := ihArm plain.1 (.inr rfl) middle
      (other.ops ++ (.close, close) :: (more.ops ++ (stop, place) :: rest))
      (show arm.ops.length < fuel by omega)
    have second := ihOther plain.2.1 (.inl rfl) close (more.ops ++ (stop, place) :: rest)
      (show other.ops.length < fuel by omega)
    have deeper := ihMore plain.2.2 ends place rest (show more.ops.length < fuel by omega)
    simp [parse, ops, first, second, closing, deeper]

theorem ofOps_ops {t : Tree} (plain : t.Plain) (close : Nat) :
    ofOps (t.ops ++ [(.close, close)]) = some t := by
  have found := parse_ops plain (.inl rfl) close [] (show t.ops.length < t.ops.length + 1 by omega)
  simp [ofOps, found]

end Tree

/-- The operators from a cursor to the end of its window, each of which takes at least one of the
`fuel` bytes. -/
def listing : (fuel : Nat) → Cursor → Option (List Placed)
  | 0, _ => some []
  | fuel + 1, c =>
    if c.atEnd then some []
    else
      match Operator.read c with
      | (.ok o, next) => (listing fuel next).map ((o, c.offset) :: ·)
      | (.error _, _) => none

/-- What a body consists of: how many locals it declares, and its code. -/
def Body.parts (body : Body) : Option (Nat × Tree) :=
  match Body.localRuns body.start with
  | (.ok runs, c) => do
    let ops ← listing (c.left + 1) c
    return ((runs.toList.map (·.1)).sum, ← Tree.ofOps ops)
  | (.error _, _) => none

end Wasmill.Wasm
