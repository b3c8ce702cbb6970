import Wasmill.Code.Instr
import Wasmill.Code.Symbol

/-! Chunks of code: a function or a stub before it is placed.

All offsets are relative to the start of the chunk. A chunk is put together from instructions; where
an operand has to be filled in later, or an instruction has to be found again, the chunk says so. -/
namespace Wasmill.Code

/-- A direct call; its displacement, at `patchAt`, is relative to `offset`. -/
structure CallSite where
  offset : Nat
  patchAt : Nat
  returnsTo : Nat
  bytecode : Nat
  callee : Nat
  deriving DecidableEq, Repr, Inhabited

structure Chunk where
  code : ByteArray := ByteArray.empty
  /-- The regular entry; zero for stubs. -/
  entry : Nat := 0
  callSites : Array CallSite := #[]
  stubRefs : Array (Nat × StubKind) := #[]
  symbolRefs : Array (Nat × Symbol) := #[]
  trapSites : Array Site := #[]
  /-- The signatures that indirect calls expect. -/
  indirectSigs : Array Nat := #[]
  deriving Inhabited

/-- An instruction with what has to be known about it beyond its operands. -/
structure Line where
  instr : Instr
  /-- The module offset to blame, if it may trap. -/
  traps : Option Nat := none
  /-- The callee of a direct call and the module offset of the call. -/
  calls : Option (Nat × Nat) := none
  symbol : Option Symbol := none
  /-- The signature an indirect call expects. -/
  expects : Option Nat := none

/-- The stub operand of an instruction: its place, and the stub it is for. -/
def Instr.stub? : Instr → Option (Nat × StubKind)
  | .prologue _ _ => some (5, .stackOverflow)
  | .checkInterrupt _ _ => some (5, .interrupt)
  | .load _ _ _ _ _ | .store _ _ _ _ _ => some (14, .outOfBounds)
  | .exit _ _ _ _ _ => some (13, .throw)
  | _ => none

namespace Chunk

/-- Symbol operands and displacements of calls come right after the opcode. -/
def firstOperand : Nat := 1

def appendBytes (code : ByteArray) (bytes : List UInt8) : ByteArray :=
  bytes.foldl ByteArray.push code

def add (c : Chunk) (line : Line) : Chunk :=
  let start := c.code.size
  let code := appendBytes c.code line.instr.encode
  { code
    entry := c.entry
    callSites :=
      match line.calls with
      | some (callee, bytecode) =>
        c.callSites.push
          { offset := start, patchAt := start + firstOperand, returnsTo := code.size,
            bytecode, callee }
      | none => c.callSites
    stubRefs :=
      match line.instr.stub? with
      | some (place, kind) => c.stubRefs.push (start + place, kind)
      | none => c.stubRefs
    symbolRefs :=
      match line.symbol with
      | some symbol => c.symbolRefs.push (start + firstOperand, symbol)
      | none => c.symbolRefs
    trapSites :=
      match line.traps with
      | some bytecode => c.trapSites.push ⟨start, bytecode⟩
      | none => c.trapSites
    indirectSigs :=
      match line.expects with
      | some sig => if c.indirectSigs.contains sig then c.indirectSigs else c.indirectSigs.push sig
      | none => c.indirectSigs }

def ofLines (lines : List Line) : Chunk := lines.foldl add {}

end Chunk
end Wasmill.Code
