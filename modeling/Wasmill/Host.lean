import Wasmill.Val

/-! Host functions: what imports are filled with.

A host function is given by what it does. A call has effects, one after another, and then an answer.
Effects name the objects they act on. Besides the generic path, which takes and answers values, a
host function may have optimized code, which takes and answers slots; imports use it once it fits
their signature. -/
namespace Wasmill

/-- What a call of a host function answers. -/
inductive Answer
  | nothing
  | val (v : Val)
  /-- What the last call made by its effects answered. -/
  | called
  /-- How often the host function ran. -/
  | count
  /-- The sum of the `i32` arguments. -/
  | sum
  | arg (index : Nat)
  /-- A failure, as a message and the contexts around it, the outermost last. -/
  | fail (message : String) (contexts : List String)
  deriving Inhabited

/-- What a call of optimized code answers. -/
inductive SlotAnswer
  | slot (s : Slot)
  /-- The sum of the arguments, as 32 bits each. -/
  | sum
  | arg (index : Nat)
  | fail (message : String) (contexts : List String)
  deriving Inhabited

/-- Optimized code: for which arguments it was made, and what it does. -/
structure OptimizedCode (ε : Type) where
  arity : Nat
  params : List ValType
  result : Option ValType
  /-- It is about to be replaced. -/
  pending : Bool
  effects : List ε
  answer : SlotAnswer
  deriving Inhabited

/-- Whether imports of a signature may call the code. -/
def OptimizedCode.accepts (code : OptimizedCode ε) (sig : Sig) : Bool :=
  !code.pending && sig.params.length ≤ code.arity && sig.params.isPrefixOf code.params
    && (sig.result.isNone || code.result == sig.result)

inductive Effect
  | interrupt (target : String)
  | invalidate (host : String)
  | setOptimized (host : String) (code : OptimizedCode Effect)
  | call (target name : String) (args : List Val)
  | write (memory : String) (offset : Nat) (bytes : ByteArray)
  | grow (memory : String) (delta : Nat)
  | profiling (target : String) (on : Bool)
  | drop (target : String)
  deriving Inhabited

structure Host where
  name : String
  effects : List Effect
  answer : Answer
  optimized : Option (OptimizedCode Effect)
  /-- The instances and imports that call the optimized code. -/
  dependents : List (Nat × Nat) := []
  /-- How often the generic path was taken. -/
  runs : Nat := 0
  deriving Inhabited

/-- What can be seen of host functions at work. -/
inductive Event
  | generic (host : String) (args : List Val)
  | optimized (host : String) (args : List Slot)
  | write (fits : Bool)
  | grow (old : Option Nat)
  deriving Inhabited

/-- A failure as a chain, the outermost context first. -/
def failChain (message : String) (contexts : List String) : List String :=
  contexts.reverse ++ [message]

namespace Host

/-- The answer of the generic path; a failure is a chain of messages. -/
def answerTo (h : Host) (args : List Val) (called : Option Val) :
    Except (List String) (Option Val) :=
  match h.answer with
  | .nothing => .ok none
  | .val v => .ok (some v)
  | .called => .ok called
  | .count => .ok (some (.i32 (BitVec.ofNat 32 h.runs)))
  | .sum =>
    .ok (some (.i32 (args.foldl (fun sum v => match v with | .i32 n => sum + n | _ => sum) 0)))
  | .arg index => .ok args[index]?
  | .fail message contexts => .error (failChain message contexts)

end Host

def SlotAnswer.answerTo (a : SlotAnswer) (args : List Slot) : Except (List String) Slot :=
  match a with
  | .slot s => .ok s
  | .sum => .ok (.of32 (args.foldl (fun sum s => sum + s.low32) 0))
  | .arg index => .ok (args.getD index 0)
  | .fail message contexts => .error (failChain message contexts)

end Wasmill
