import Wasmill.Env
import Wasmill.Proofs.Action
import Wasmill.Proofs.Wasm.Tree

/-! What structured code does on its operand stack.

Every block has an operand stack of its own; at its end, or at a branch to it, its results are left
on the stack around it. A branch goes outwards through as many blocks as it says. Code that may run
for ever is run with a clock, of which each turn of a loop takes one tick. Code that is not valid
can be stuck. -/
namespace Wasmill.Wasm

structure State (σ : Type) where
  locals : List Slot
  /-- The operands of the innermost block, the topmost first. -/
  stack : List Slot
  history : History σ

inductive Result (σ ε : Type)
  | next (s : State σ)
  /-- On the way to the block `depth` levels out. -/
  | branch (depth : Nat) (s : State σ)
  | ended (o : Ending ε) (h : History σ)
  /-- The clock ran out. -/
  | exhausted (h : History σ)
  | stuck

/-- The topmost `n` operands, the lowest of them first, and what lies below them. -/
def operands (n : Nat) (stack : List Slot) : Option (List Slot × List Slot) :=
  if n ≤ stack.length then some ((stack.take n).reverse, stack.drop n) else none

/-- What an operator comes to, whether it leaves a result, and the operands it does not take. -/
def Operator.demand (env : Env) : Operator → List Slot → Option (Demand × Bool × List Slot)
  | .nop, st => some (.value 0, false, st)
  | .drop, _ :: st => some (.value 0, false, st)
  | .select, c :: e :: t :: st | .typedSelect _, c :: e :: t :: st =>
    some (.value (if c.low32 ≠ 0 then t else e), true, st)
  | .globalGet index, st =>
    (env.globals[index]?).map fun g => (.action (.globalGet g.ty.content g.place), true, st)
  | .globalSet index, v :: st =>
    (env.globals[index]?).map fun g => (.action (.globalSet g.ty.content g.place v), false, st)
  | .load kind arg, a :: st => some (.action (.load kind (a.low32.toNat + arg.offset)), true, st)
  | .store kind arg, v :: a :: st =>
    some (.action (.store kind (a.low32.toNat + arg.offset) v), false, st)
  | .memorySize _, st => some (.action .memorySize, true, st)
  | .memoryGrow _, delta :: st => some (.action (.memoryGrow delta), true, st)
  | .const v, st => some (.value v.toSlot, true, st)
  | .unary op, a :: st => some (.value (op.eval a), true, st)
  | .binary op, b :: a :: st => some (.ofEval (op.eval a b), true, st)
  | .convert op, a :: st => some (.ofEval (op.eval a), true, st)
  | .splat shape, a :: st => some (.value (shape.splat a), true, st)
  | .extractLane shape signed lane, v :: st => some (.value (shape.extract signed lane v), true, st)
  | .replaceLane shape lane, x :: v :: st => some (.value (shape.replace lane v x), true, st)
  | .shuffle lanes, b :: a :: st => some (.value (Ssa.shuffle a b lanes), true, st)
  | .call callee, st => do
    let sig ← env.sigOf? callee
    let (args, st) ← operands sig.params.length st
    match env.funcImports[callee]? with
    | some desc => return (.action (.callImport callee desc.record args), sig.result.isSome, st)
    | none => return (.action (.call callee args), sig.result.isSome, st)
  | .callIndirect ty table, index :: st => do
    let sig ← env.sigs[ty]?
    let desc ← env.tables[table]?
    let (args, st) ← operands sig.params.length st
    return (.action (.callIndirect ty desc.handle (env.sigToken ty) index args),
      sig.result.isSome, st)
  | _, _ => none

/-- How many results a block leaves. Blocks that take operands are not modelled. -/
def BlockType.arity : BlockType → Option Nat
  | .empty => some 0
  | .value _ => some 1
  | .func _ => none

section
variable {σ ε : Type}

namespace State

/-- At the start of a block. -/
def opened (s : State σ) : State σ := { s with stack := [] }

/-- Behind the end of a block, with its results on the operands around it. -/
def closed (s : State σ) (arity : Option Nat) (around : List Slot) : Result σ ε :=
  match arity with
  | some n =>
    if n ≤ s.stack.length then .next { s with stack := s.stack.take n ++ around } else .stuck
  | none => .stuck

/-- Returns from the function. -/
def returned (s : State σ) : Option ValType → Result σ ε
  | none => .ended (.returned none) s.history
  | some _ =>
    match s.stack with
    | v :: _ => .ended (.returned (some v)) s.history
    | [] => .stuck

/-- One operator that does not move control. -/
def perform (env : Env) (O : Outside σ ε) (o : Operator) (place : Nat) (s : State σ) : Result σ ε :=
  match o.demand env s.stack with
  | none => .stuck
  | some (d, pushes, st) =>
    match O.meet s.history d with
    | .value v h => .next { s with stack := if pushes then v :: st else st, history := h }
    | .trap t => .ended (.trapped t place) s.history
    | .failure e h => .ended (.failed e) h

/-- One operator that opens no block, in a function with the given result. -/
def operate (env : Env) (O : Outside σ ε) (result : Option ValType) (o : Operator) (place : Nat)
    (s : State σ) : Result σ ε :=
  match o with
  | .unreachable => .ended (.trapped .unreachableCodeReached place) s.history
  | .br depth => .branch depth s
  | .brIf depth =>
    match s.stack with
    | c :: st =>
      if c.low32 ≠ 0 then .branch depth { s with stack := st } else .next { s with stack := st }
    | [] => .stuck
  | .brTable depths default =>
    match s.stack with
    | i :: st => .branch (depths.getD i.low32.toNat default) { s with stack := st }
    | [] => .stuck
  | .ret => s.returned result
  | .localGet index =>
    match s.locals[index]? with
    | some v => .next { s with stack := v :: s.stack }
    | none => .stuck
  | .localSet index =>
    match s.stack with
    | v :: st =>
      if index < s.locals.length then .next { s with locals := s.locals.set index v, stack := st }
      else .stuck
    | [] => .stuck
  | .localTee index =>
    match s.stack with
    | v :: _ =>
      if index < s.locals.length then .next { s with locals := s.locals.set index v } else .stuck
    | [] => .stuck
  | o => s.perform env O o place

end State

namespace Result

def andThen (r : Result σ ε) (rest : State σ → Result σ ε) : Result σ ε :=
  match r with
  | .next s => rest s
  | r => r

/-- What became of a block, seen from around it. -/
def closed (r : Result σ ε) (arity : Option Nat) (around : List Slot) : Result σ ε :=
  match r with
  | .next s => s.closed arity around
  | .branch 0 s => s.closed arity around
  | .branch (depth + 1) s => .branch depth s
  | r => r

/-- What became of a function body. -/
def finished (r : Result σ ε) (result : Option ValType) : Result σ ε :=
  match r with
  | .next s => s.returned result
  | .branch 0 s => s.returned result
  | .branch _ _ => .stuck
  | r => r

/-- The actions performed so far. -/
def actions : Result σ ε → List Action
  | .next s => s.history.actions
  | .branch _ s => s.history.actions
  | .ended _ h => h.actions
  | .exhausted h => h.actions
  | .stuck => []

end Result

/-- Turns of a loop, one for each branch back to it. -/
def turns (body : Nat → State σ → Result σ ε) : Nat → State σ → Result σ ε
  | 0, s => .exhausted s.history
  | n + 1, s =>
    match body n s.opened with
    | .branch 0 s => turns body n s
    | r => r

namespace Tree

def exec (env : Env) (O : Outside σ ε) (result : Option ValType) :
    Tree → (clock : Nat) → State σ → Result σ ε
  | done, _, s => .next s
  | op o place rest, n, s => (s.operate env O result o place).andThen (exec env O result rest n)
  | block ty _ body _ rest, n, s =>
    ((exec env O result body n s.opened).closed ty.arity s.stack).andThen (exec env O result rest n)
  | loop ty _ body _ rest, n, s =>
    ((turns (exec env O result body) n s).closed ty.arity s.stack).andThen
      (exec env O result rest n)
  | ifThen ty _ arm _ rest, n, s =>
    match s.stack with
    | c :: st =>
      let inside := if c.low32 ≠ 0 then exec env O result arm n s.opened else .next s.opened
      (inside.closed ty.arity st).andThen (exec env O result rest n)
    | [] => .stuck
  | ifElse ty _ arm _ other _ rest, n, s =>
    match s.stack with
    | c :: st =>
      let inside :=
        if c.low32 ≠ 0 then exec env O result arm n s.opened else exec env O result other n s.opened
      (inside.closed ty.arity st).andThen (exec env O result rest n)
    | [] => .stuck

/-- A call of a function with this code, which declares `zeros` locals besides its parameters. -/
def call (env : Env) (O : Outside σ ε) (result : Option ValType) (code : Tree) (zeros : Nat)
    (args : List Slot) (st : σ) (clock : Nat) : Result σ ε :=
  let s := { locals := args ++ List.replicate zeros 0, stack := [], history := ⟨st, []⟩ }
  (exec env O result code clock s).finished result

end Tree

namespace Body

/-- A call of a function with this body; there is no answer for one that cannot be read. -/
def call (body : Body) (env : Env) (O : Outside σ ε) (sig : Sig) (args : List Slot) (st : σ)
    (clock : Nat) : Result σ ε :=
  match body.parts with
  | some (zeros, code) => code.call env O sig.result zeros args st clock
  | none => .stuck

/-- A call of the function has the outcome `o`, after which the surroundings are `h`. -/
def Ends (body : Body) (env : Env) (O : Outside σ ε) (sig : Sig) (args : List Slot) (st : σ)
    (o : Ending ε) (h : History σ) : Prop :=
  ∃ clock, body.call env O sig args st clock = .ended o h

/-- A call of the function performs these actions, latest first, and maybe more after them. -/
def Performs (body : Body) (env : Env) (O : Outside σ ε) (sig : Sig) (args : List Slot) (st : σ)
    (actions : List Action) : Prop :=
  ∃ clock, actions <:+ (body.call env O sig args st clock).actions

end Body
end
end Wasmill.Wasm
