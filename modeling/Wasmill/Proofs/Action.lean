import Wasmill.Ssa.Eval

/-! What running code asks of its surroundings.

Code computes on slots by itself; memory, globals, tables and other functions belong to its
surroundings. Whatever the code needs of them is an `Action`, and an `Outside` answers it. The same
actions are those of an operator on the operand stack and of the instruction it became, so what the
two do can be compared without a word about how a memory or a callee works. -/
namespace Wasmill
open Ssa

inductive Action
  /-- `place` is the address with the static offset added. -/
  | load (kind : LoadKind) (place : Nat)
  | store (kind : StoreKind) (place : Nat) (value : Slot)
  | globalGet (ty : ValType) (place : Nat)
  | globalSet (ty : ValType) (place : Nat) (value : Slot)
  | memorySize
  | memoryGrow (delta : Slot)
  | call (callee : Nat) (args : List Slot)
  | callImport (importIndex record : Nat) (args : List Slot)
  | callIndirect (sig table token : Nat) (index : Slot) (args : List Slot)
  /-- A look whether the code is to be interrupted. -/
  | poll
  deriving DecidableEq

/-- What one operator or instruction comes to once its operands are known. -/
inductive Demand
  | value (v : Slot)
  | trap (t : Trap)
  | action (a : Action)
  deriving DecidableEq

/-- An operation that may trap. -/
def Demand.ofEval : Except Trap Slot → Demand
  | .ok v => .value v
  | .error t => .trap t

/-- The answer to an action. A trap leaves the surroundings as they were; a failure, such as one
that a host function raised, ends the code for another reason than a trap. -/
inductive Response (σ ε : Type)
  | value (v : Slot) (next : σ)
  | trap (t : Trap)
  | failure (e : ε) (next : σ)

/-- Surroundings with states in `σ` and failures in `ε`. -/
abbrev Outside (σ ε : Type) := σ → Action → Response σ ε

/-- The state of the surroundings, with every action that was performed on the way, latest first. -/
structure History (σ : Type) where
  state : σ
  actions : List Action

namespace Outside
variable {σ ε : Type}

/-- Interrupt checks that find nothing. -/
def Undisturbed (O : Outside σ ε) : Prop := ∀ st, ∃ v, O st .poll = .value v st

/-- The answer to an action, kept in the history unless it trapped. Polls are not kept. -/
def ask (O : Outside σ ε) (h : History σ) (a : Action) : Response (History σ) ε :=
  let kept := if a = .poll then h.actions else a :: h.actions
  match O h.state a with
  | .value v st => .value v ⟨st, kept⟩
  | .trap t => .trap t
  | .failure e st => .failure e ⟨st, kept⟩

def meet (O : Outside σ ε) (h : History σ) : Demand → Response (History σ) ε
  | .value v => .value v h
  | .trap t => .trap t
  | .action a => O.ask h a

theorem ask_poll {O : Outside σ ε} (quiet : O.Undisturbed) (h : History σ) :
    ∃ v, O.ask h .poll = .value v h := by
  obtain ⟨v, answer⟩ := quiet h.state
  exact ⟨v, by simp [ask, answer]⟩

/-- The actions of the surroundings after a reply extend those before. -/
theorem meet_actions (O : Outside σ ε) (h : History σ) (d : Demand) :
    match O.meet h d with
    | .value _ h' | .failure _ h' => h.actions <:+ h'.actions
    | .trap _ => True := by
  cases d with
  | value v => exact List.suffix_refl _
  | trap t => trivial
  | action a =>
    have kept : h.actions <:+ (if a = .poll then h.actions else a :: h.actions) := by
      split
      · exact List.suffix_refl _
      · exact List.suffix_cons _ _
    simp only [meet, ask]
    cases O h.state a with
    | value v st => exact kept
    | trap t => trivial
    | failure e st => exact kept

end Outside

/-- How code ends. -/
inductive Ending (ε : Type)
  | returned (value : Option Slot)
  /-- `place` is that of the operator that trapped. -/
  | trapped (t : Trap) (place : Nat)
  | failed (e : ε)

/-- The outcome with places of operators kept in 32 bits. -/
def Ending.narrowed {ε : Type} : Ending ε → Ending ε
  | .trapped t place => .trapped t (place % UInt32.size)
  | o => o

end Wasmill
