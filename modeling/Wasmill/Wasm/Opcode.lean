import Wasmill.Wasm.Opcode.Atomic
import Wasmill.Wasm.Opcode.Managed
import Wasmill.Wasm.Opcode.Numeric
import Wasmill.Wasm.Opcode.Vector

/-! Reading one operator. -/
namespace Wasmill.Wasm
namespace Opcode

/-- The most targets that a branch table may have beside its default. -/
def maxTargets : Nat := 131072

def brTable : Read Operator := do
  let depths ← Read.vec maxTargets Read.u32
  let default ← Read.u32
  return .brTable depths default

/-- The types of a selection are counted, and there is one. -/
def typedSelect : Read Operator := do
  let place ← Read.offset
  if (← Read.u32) ≠ 1 then Read.rejectAt place "invalid result arity"
  else return .typedSelect (← Ty.read)

def tryTable : Read Operator := do
  let ty ← BlockType.read
  let clauses ← Read.vec 10000 CatchClause.read
  return .extra "TryTable" (.tryTable ty clauses.toList)

/-- The handlers of a resumed computation. -/
def resumeHandler : Read Unit := do
  match ← Read.byte with
  | 0 => do let _ ← Read.u32; let _ ← Read.u32
  | 1 => do let _ ← Read.u32
  | _ => Read.reject "invalid leading byte in resume table"

/-- An operator of an extension that is switched off, with what follows it. -/
def off (name : String) (rest : Read α) : Read Operator := do
  let _ ← rest
  return .extra name .disabled

/-- Two numbers, with nothing made of them. -/
def pair : Read Unit := do
  let _ ← Read.u32
  let _ ← Read.u32

end Opcode

open Opcode in
def Operator.read : Read Operator := do
  match ← Read.byte with
  | 0x00 => return .unreachable
  | 0x01 => return .nop
  | 0x02 => return .block (← BlockType.read)
  | 0x03 => return .loop (← BlockType.read)
  | 0x04 => return .ifBlock (← BlockType.read)
  | 0x05 => return .elseArm
  | 0x06 => off "Try" BlockType.read
  | 0x07 => off "Catch" Read.u32
  | 0x08 => indexed "Throw" .throw
  | 0x09 => off "Rethrow" Read.u32
  | 0x0a => bare "ThrowRef" .throwRef
  | 0x0b => return .close
  | 0x0c => return .br (← Read.u32)
  | 0x0d => return .brIf (← Read.u32)
  | 0x0e => Opcode.brTable
  | 0x0f => return .ret
  | 0x10 => return .call (← Read.u32)
  | 0x11 => do let ty ← Read.u32; return .callIndirect ty (← Read.u32)
  | 0x12 => indexed "ReturnCall" .returnCall
  | 0x13 => indexed2 "ReturnCallIndirect" .returnCallIndirect
  | 0x14 => indexed "CallRef" .callRef
  | 0x15 => indexed "ReturnCallRef" .returnCallRef
  | 0x18 => off "Delegate" Read.u32
  | 0x19 => bare "CatchAll" .disabled
  | 0x1a => return .drop
  | 0x1b => return .select
  | 0x1c => Opcode.typedSelect
  | 0x1f => Opcode.tryTable
  | 0x20 => return .localGet (← Read.u32)
  | 0x21 => return .localSet (← Read.u32)
  | 0x22 => return .localTee (← Read.u32)
  | 0x23 => return .globalGet (← Read.u32)
  | 0x24 => return .globalSet (← Read.u32)
  | 0x25 => indexed "TableGet" .tableGet
  | 0x26 => indexed "TableSet" .tableSet
  | 0x3f => return .memorySize (← Read.u32)
  | 0x40 => return .memoryGrow (← Read.u32)
  | 0x41 => return .const (.i32 (BitVec.ofInt 32 (← Read.s32)))
  | 0x42 => return .const (.i64 (BitVec.ofInt 64 (← Read.s64)))
  | 0x43 => return .const (.f32 (BitVec.ofNat 32 (← Read.fixed 4)))
  | 0x44 => return .const (.f64 (BitVec.ofNat 64 (← Read.fixed 8)))
  | 0xd0 => return .extra "RefNull" (.refNull (← Heap.read))
  | 0xd1 => bare "RefIsNull" .refIsNull
  | 0xd2 => indexed "RefFunc" .refFunc
  | 0xd3 => bare "RefEq" .refEq
  | 0xd4 => bare "RefAsNonNull" .refAsNonNull
  | 0xd5 => indexed "BrOnNull" .brOnNull
  | 0xd6 => indexed "BrOnNonNull" .brOnNonNull
  | 0xe0 => off "ContNew" Read.u32
  | 0xe1 => off "ContBind" pair
  | 0xe2 => off "Suspend" Read.u32
  | 0xe3 => off "Resume" do let _ ← Read.u32; Read.vec 10000 resumeHandler
  | 0xe4 => off "ResumeThrow" do pair; Read.vec 10000 resumeHandler
  | 0xe5 => off "Switch" pair
  | 0xfb => do let code ← Read.u32; Opcode.select Managed.table code
  | 0xfc => do let code ← Read.u32; Opcode.select Managed.bulk code
  | 0xfd => do let code ← Read.u32; Opcode.select Vector.table code
  | 0xfe => do let code ← Read.u32; Opcode.select Atomic.table code
  | code =>
    if 0x28 ≤ code ∧ code ≤ 0x35 then Opcode.load code
    else if 0x36 ≤ code ∧ code ≤ 0x3e then Opcode.store code
    else
      match numeric[code - numericStart]? with
      | some op => if code < numericStart then Read.reject "illegal opcode" else return op
      | none => Read.reject "illegal opcode"

end Wasmill.Wasm
