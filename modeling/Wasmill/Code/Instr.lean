import Wasmill.Error
import Wasmill.Ssa.Op

/-! The instructions of the byte code, and their encoding.

An instruction is an opcode byte and fixed operands, low bytes first. Operands that name values are
slots of the frame, in 32 bits; `noSlot` stands for none. Displacements are relative to the first
byte of their instruction. Operands that are filled in by linking are `unlinked` until then. -/
namespace Wasmill.Code
open Ssa

inductive Opcode
  | prologue | checkInterrupt | const | unary | binary | convert | select | load | store | globalGet
  | globalSet | memorySize | memoryGrow | splat | extractLane | replaceLane | shuffle | jump | brIf
  | brTable | ret | trap | call | callImport | callIndirect | jumpFar | entryPrologue | entryReturn
  | exitInterp | exitJit | trapExit | unwind | profilingEnter
  deriving DecidableEq, Repr, Inhabited

namespace Opcode

def all : Array Opcode :=
  #[.prologue, .checkInterrupt, .const, .unary, .binary, .convert, .select, .load, .store,
    .globalGet, .globalSet, .memorySize, .memoryGrow, .splat, .extractLane, .replaceLane, .shuffle,
    .jump, .brIf, .brTable, .ret, .trap, .call, .callImport, .callIndirect, .jumpFar,
    .entryPrologue, .entryReturn, .exitInterp, .exitJit, .trapExit, .unwind, .profilingEnter]

def toByte (op : Opcode) : Nat := op.ctorIdx

def ofByte? (byte : Nat) : Option Opcode := all[byte]?

theorem ofByte?_toByte (op : Opcode) : ofByte? op.toByte = some op := by cases op <;> rfl

end Opcode

/-- The operand that names no slot. -/
def noSlot : Nat := 0xffffffff

/-- The value of an operand that has not been linked. -/
def unlinked : Nat := 0xffffffff

/-- Where a branch goes, and the slots that are assigned all at once on the way. -/
structure Dest where
  rel : Int
  /-- Pairs of a destination and a source. -/
  moves : List (Nat × Nat)
  deriving DecidableEq, Repr, Inhabited

inductive Instr
  /-- Counts a call of the function and goes on to its regular entry. -/
  | profilingEnter (func : Nat)
  | prologue (frameSize stub : Nat)
  | checkInterrupt (symbol stub : Nat)
  | const (dst : Nat) (bits : Slot)
  | unary (op : UnaryOp) (dst src : Nat)
  | binary (op : BinaryOp) (dst a b : Nat)
  | convert (op : ConvertOp) (dst src : Nat)
  | select (dst cond ifTrue ifFalse : Nat)
  | load (kind : LoadKind) (dst addr offset stub : Nat)
  | store (kind : StoreKind) (addr src offset stub : Nat)
  | globalGet (ty : ValType) (dst place : Nat)
  | globalSet (ty : ValType) (place src : Nat)
  | memorySize (symbol dst : Nat)
  | memoryGrow (symbol dst delta : Nat)
  | splat (shape : LaneShape) (dst src : Nat)
  | extractLane (shape : LaneShape) (signed : Bool) (lane dst src : Nat)
  | replaceLane (shape : LaneShape) (lane dst vector value : Nat)
  | shuffle (dst a b : Nat) (lanes : List Nat)
  | jump (dest : Dest)
  | brIf (cond : Nat) (ifTrue ifFalse : Dest)
  | brTable (index : Nat) (targets : List Dest) (default : Dest)
  | ret (src : Nat)
  | trap (trap : Trap)
  | call (rel : Int) (args : List Nat) (dst : Nat)
  | callImport (record : Nat) (args : List Nat) (dst : Nat)
  | callIndirect (table token index : Nat) (args : List Nat) (dst : Nat)
  | jumpFar (target : Nat)
  | entryPrologue (nargs : Nat)
  | entryReturn (src : Nat)
  /-- Calls an import, directly if it is optimized. -/
  | exit (optimized : Bool) (symbol importIndex nargs stub : Nat)
  | trapExit (trap : Trap)
  | unwind
  deriving DecidableEq, Repr, Inhabited

/-- The `n` low bytes of a number, the lowest first. -/
def le : (n value : Nat) → List UInt8
  | 0, _ => []
  | n + 1, value => UInt8.ofNat value :: le n (value / 256)

def u8 (value : Nat) : List UInt8 := le 1 value

def u32 (value : Nat) : List UInt8 := le 4 value

/-- A signed number in 32 bits, as its two's complement. -/
def i32 (value : Int) : List UInt8 := u32 (value % UInt32.size).toNat

def Dest.encode (d : Dest) : List UInt8 :=
  i32 d.rel ++ u32 d.moves.length ++ d.moves.flatMap fun (dst, src) => u32 dst ++ u32 src

/-- Slots with their number before them. -/
def encodeArgs (args : List Nat) : List UInt8 := u32 args.length ++ args.flatMap u32

namespace Instr

def opcode : Instr → Opcode
  | profilingEnter _ => .profilingEnter
  | prologue _ _ => .prologue
  | checkInterrupt _ _ => .checkInterrupt
  | const _ _ => .const
  | unary _ _ _ => .unary
  | binary _ _ _ _ => .binary
  | convert _ _ _ => .convert
  | select _ _ _ _ => .select
  | load _ _ _ _ _ => .load
  | store _ _ _ _ _ => .store
  | globalGet _ _ _ => .globalGet
  | globalSet _ _ _ => .globalSet
  | memorySize _ _ => .memorySize
  | memoryGrow _ _ _ => .memoryGrow
  | splat _ _ _ => .splat
  | extractLane _ _ _ _ _ => .extractLane
  | replaceLane _ _ _ _ _ => .replaceLane
  | shuffle _ _ _ _ => .shuffle
  | jump _ => .jump
  | brIf _ _ _ => .brIf
  | brTable _ _ _ => .brTable
  | ret _ => .ret
  | trap _ => .trap
  | call _ _ _ => .call
  | callImport _ _ _ => .callImport
  | callIndirect _ _ _ _ _ => .callIndirect
  | jumpFar _ => .jumpFar
  | entryPrologue _ => .entryPrologue
  | entryReturn _ => .entryReturn
  | exit optimized _ _ _ _ => if optimized then .exitJit else .exitInterp
  | trapExit _ => .trapExit
  | unwind => .unwind

def operands : Instr → List UInt8
  | profilingEnter func => u32 func
  | prologue frameSize stub => u32 frameSize ++ u32 stub
  | checkInterrupt symbol stub => u32 symbol ++ u32 stub
  | const dst bits => u32 dst ++ le 16 bits.toNat
  | unary op dst src => u8 op.toByte ++ u32 dst ++ u32 src
  | binary op dst a b => u8 op.toByte ++ u32 dst ++ u32 a ++ u32 b
  | convert op dst src => u8 op.toByte ++ u32 dst ++ u32 src
  | select dst cond ifTrue ifFalse => u32 dst ++ u32 cond ++ u32 ifTrue ++ u32 ifFalse
  | load kind dst addr offset stub =>
    u8 kind.toByte ++ u32 dst ++ u32 addr ++ u32 offset ++ u32 stub
  | store kind addr src offset stub =>
    u8 kind.toByte ++ u32 addr ++ u32 src ++ u32 offset ++ u32 stub
  | globalGet ty dst place => u8 ty.toByte ++ u32 dst ++ u32 place
  | globalSet ty place src => u8 ty.toByte ++ u32 place ++ u32 src
  | memorySize symbol dst => u32 symbol ++ u32 dst
  | memoryGrow symbol dst delta => u32 symbol ++ u32 dst ++ u32 delta
  | splat shape dst src => u8 shape.toByte ++ u32 dst ++ u32 src
  | extractLane shape signed lane dst src =>
    u8 shape.toByte ++ u8 signed.toNat ++ u8 lane ++ u32 dst ++ u32 src
  | replaceLane shape lane dst vector value =>
    u8 shape.toByte ++ u8 lane ++ u32 dst ++ u32 vector ++ u32 value
  | shuffle dst a b lanes => u32 dst ++ u32 a ++ u32 b ++ lanes.flatMap u8
  | jump dest => dest.encode
  | brIf cond ifTrue ifFalse => u32 cond ++ ifTrue.encode ++ ifFalse.encode
  | brTable index targets default =>
    u32 index ++ u32 targets.length ++ targets.flatMap Dest.encode ++ default.encode
  | ret src => u32 src
  | trap t => u8 t.toByte
  | call rel args dst => i32 rel ++ encodeArgs args ++ u32 dst
  | callImport record args dst => u32 record ++ encodeArgs args ++ u32 dst
  | callIndirect table token index args dst =>
    u32 table ++ u32 token ++ u32 index ++ encodeArgs args ++ u32 dst
  | jumpFar target => u32 target
  | entryPrologue nargs => u32 nargs
  | entryReturn src => u32 src
  | exit _ symbol importIndex nargs stub => u32 symbol ++ u32 importIndex ++ u32 nargs ++ u32 stub
  | trapExit t => u8 t.toByte
  | unwind => []

def encode (i : Instr) : List UInt8 := u8 i.opcode.toByte ++ i.operands

/-- The size of an encoded instruction. -/
def size (i : Instr) : Nat := i.encode.length

end Instr

end Wasmill.Code
