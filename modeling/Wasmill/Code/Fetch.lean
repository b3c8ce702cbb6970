import Wasmill.Code.Instr

/-! Reading instructions back from code. -/
namespace Wasmill.Code
open Ssa

/-- An instruction as the machine meets it: a branch table is left after its index operand, because
only the destination that is taken is read. -/
inductive Fetched
  | instr (i : Instr)
  | table (index : Nat)
  deriving DecidableEq, Repr, Inhabited

/-- Reads operands from code. -/
abbrev Fetch := ReaderT ByteArray (StateT Nat (Except Broken))

namespace Fetch

/-- The number in `n` bytes of code, the lowest first. -/
def leAt (code : ByteArray) (pos : Nat) : Nat → Nat
  | 0 => 0
  | n + 1 => (code.get! pos).toNat + 256 * leAt code (pos + 1) n

def le (n : Nat) : Fetch Nat := fun code pos =>
  if pos + n ≤ code.size then .ok (leAt code pos n, pos + n)
  else .error (.truncatedInstruction pos)

def u8 : Fetch Nat := le 1

def u32 : Fetch Nat := le 4

def i32 : Fetch Int := do
  let n ← u32
  return if n < 0x80000000 then (n : Int) else (n : Int) - UInt32.size

def opcode : Fetch Opcode := fun code pos => do
  let (byte, next) ← u8 code pos
  match Opcode.ofByte? byte with
  | some op => .ok (op, next)
  | none => .error (.invalidOpcode byte pos)

/-- An operand that linking fills in. -/
def linked : Fetch Nat := fun code pos => do
  let (target, next) ← u32 code pos
  if target = unlinked then .error (.unlinkedOperand pos) else .ok (target, next)

/-- A byte that has to stand for something; the instruction starts at `pc`. -/
def coded (what : String) (pc : Nat) (ofByte? : Nat → Option α) : Fetch α := do
  match ofByte? (← u8) with
  | some a => return a
  | none => throw (.invalidOperand what pc)

def many (item : Fetch α) : Nat → Fetch (List α)
  | 0 => return []
  | n + 1 => do
    let x ← item
    let rest ← many item n
    return x :: rest

def args : Fetch (List Nat) := do
  let count ← u32
  many u32 count

def move : Fetch (Nat × Nat) := do
  let dst ← u32
  return (dst, ← u32)

def dest : Fetch Dest := do
  let rel ← i32
  let count ← u32
  return ⟨rel, ← many move count⟩

/-- Passes over a destination without a look at its moves. -/
def skipDest : Fetch Unit := do
  let _ ← i32
  let count ← u32
  modify (· + 8 * count)

/-- The operands of the instruction at `pc`; those that linking fills in are read by `absolute`. -/
def operands (absolute : Fetch Nat) (pc : Nat) : Opcode → Fetch Fetched
  | .profilingEnter => return .instr (.profilingEnter (← u32))
  | .prologue => return .instr (.prologue (← u32) (← absolute))
  | .checkInterrupt => return .instr (.checkInterrupt (← absolute) (← absolute))
  | .const => return .instr (.const (← u32) (BitVec.ofNat 128 (← le 16)))
  | .unary => return .instr (.unary (← coded "unary op" pc UnaryOp.ofByte?) (← u32) (← u32))
  | .binary =>
    return .instr (.binary (← coded "binary op" pc BinaryOp.ofByte?) (← u32) (← u32) (← u32))
  | .convert => return .instr (.convert (← coded "conversion" pc ConvertOp.ofByte?) (← u32) (← u32))
  | .select => return .instr (.select (← u32) (← u32) (← u32) (← u32))
  | .load =>
    return .instr
      (.load (← coded "load kind" pc LoadKind.ofByte?) (← u32) (← u32) (← u32) (← absolute))
  | .store =>
    return .instr
      (.store (← coded "store kind" pc StoreKind.ofByte?) (← u32) (← u32) (← u32) (← absolute))
  | .globalGet =>
    return .instr (.globalGet (← coded "global type" pc ValType.ofByte?) (← u32) (← u32))
  | .globalSet =>
    return .instr (.globalSet (← coded "global type" pc ValType.ofByte?) (← u32) (← u32))
  | .memorySize => return .instr (.memorySize (← absolute) (← u32))
  | .memoryGrow => return .instr (.memoryGrow (← absolute) (← u32) (← u32))
  | .splat => return .instr (.splat (← coded "lane shape" pc LaneShape.ofByte?) (← u32) (← u32))
  | .extractLane =>
    return .instr
      (.extractLane (← coded "lane shape" pc LaneShape.ofByte?) ((← u8) != 0) (← u8) (← u32)
        (← u32))
  | .replaceLane =>
    return .instr
      (.replaceLane (← coded "lane shape" pc LaneShape.ofByte?) (← u8) (← u32) (← u32) (← u32))
  | .shuffle => return .instr (.shuffle (← u32) (← u32) (← u32) (← many u8 16))
  | .jump => return .instr (.jump (← dest))
  | .brIf => return .instr (.brIf (← u32) (← dest) (← dest))
  | .brTable => return .table (← u32)
  | .ret => return .instr (.ret (← u32))
  | .trap => return .instr (.trap (← coded "trap code" pc Trap.ofByte?))
  | .call => return .instr (.call (← i32) (← args) (← u32))
  | .callImport => return .instr (.callImport (← u32) (← args) (← u32))
  | .callIndirect => return .instr (.callIndirect (← u32) (← u32) (← u32) (← args) (← u32))
  | .jumpFar => return .instr (.jumpFar (← absolute))
  | .entryPrologue => return .instr (.entryPrologue (← u32))
  | .entryReturn => return .instr (.entryReturn (← u32))
  | .exitInterp => return .instr (.exit false (← absolute) (← u32) (← u32) (← absolute))
  | .exitJit => return .instr (.exit true (← absolute) (← u32) (← u32) (← absolute))
  | .trapExit => return .instr (.trapExit (← coded "trap code" pc Trap.ofByte?))
  | .unwind => return .instr .unwind

/-- The instruction at `pc`, and the place after it. -/
def instrAt (code : ByteArray) (pc : Nat) : Except Broken (Fetched × Nat) := do
  let (op, next) ← opcode code pc
  operands linked pc op code next

/-- The destination a branch table takes for `index`; `pos` is the place after the index operand.
An index past the end takes the default, which comes last. -/
def tableDest (code : ByteArray) (pos index : Nat) : Except Broken Dest := do
  let read : Fetch Dest := do
    let count ← u32
    let _ ← many skipDest (min index count)
    dest
  let (d, _) ← read code pos
  return d

end Fetch
end Wasmill.Code
