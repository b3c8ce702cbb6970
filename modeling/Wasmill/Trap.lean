import Wasmill.Hex

/-! Traps: the ways running code ends by itself without a result. -/
namespace Wasmill

inductive Trap
  | stackOverflow
  | memoryOutOfBounds
  | tableOutOfBounds
  | indirectCallToNull
  | badSignature
  | integerOverflow
  | integerDivisionByZero
  | badConversionToInteger
  | unreachableCodeReached
  | interrupted
  deriving DecidableEq, Repr, Inhabited

namespace Trap

def all : List Trap :=
  [.stackOverflow, .memoryOutOfBounds, .tableOutOfBounds, .indirectCallToNull, .badSignature,
    .integerOverflow, .integerDivisionByZero, .badConversionToInteger, .unreachableCodeReached,
    .interrupted]

def toByte : Trap → Nat
  | .stackOverflow => 0
  | .memoryOutOfBounds => 1
  | .tableOutOfBounds => 2
  | .indirectCallToNull => 3
  | .badSignature => 4
  | .integerOverflow => 5
  | .integerDivisionByZero => 6
  | .badConversionToInteger => 7
  | .unreachableCodeReached => 8
  | .interrupted => 9

def ofByte? (byte : Nat) : Option Trap := all[byte]?

theorem ofByte?_toByte (t : Trap) : ofByte? t.toByte = some t := by cases t <;> rfl

def name : Trap → String
  | .stackOverflow => "StackOverflow"
  | .memoryOutOfBounds => "MemoryOutOfBounds"
  | .tableOutOfBounds => "TableOutOfBounds"
  | .indirectCallToNull => "IndirectCallToNull"
  | .badSignature => "BadSignature"
  | .integerOverflow => "IntegerOverflow"
  | .integerDivisionByZero => "IntegerDivisionByZero"
  | .badConversionToInteger => "BadConversionToInteger"
  | .unreachableCodeReached => "UnreachableCodeReached"
  | .interrupted => "Interrupted"

def message : Trap → String
  | .stackOverflow => "call stack exhausted"
  | .memoryOutOfBounds => "out of bounds memory access"
  | .tableOutOfBounds => "out of bounds table access"
  | .indirectCallToNull => "accessed uninitialized table element"
  | .badSignature => "indirect call signature mismatch"
  | .integerOverflow => "integer overflow"
  | .integerDivisionByZero => "integer divide by zero"
  | .badConversionToInteger => "invalid conversion to integer"
  | .unreachableCodeReached => "unreachable code executed"
  | .interrupted => "interrupted"

end Trap

/-- A trap with the function and the module offset it is blamed on, as far as they are known. -/
structure TrapInfo where
  trap : Trap
  func : Option Nat
  offset : Option Nat
  deriving DecidableEq, Repr

def TrapInfo.message (info : TrapInfo) : String :=
  "wasm trap: " ++ info.trap.message
    ++ (match info.func with | some f => s!" in function {f}" | none => "")
    ++ (match info.offset with | some place => " at bytecode offset " ++ hex place | none => "")

end Wasmill
