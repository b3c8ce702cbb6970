import Wasmill.Ssa.Op
import Wasmill.Wasm.Type

/-! The operators of function bodies and constant expressions.

Those that can be compiled have a constructor each, or share one through the operations of the
intermediate form. All others are `extra`: they are read and checked, and carry what checking needs.
-/
namespace Wasmill.Wasm
open Ssa

/-- The immediates of a memory access; the alignment is a power of two. -/
structure MemArg where
  align : Nat
  memory : Nat
  offset : Nat
  deriving DecidableEq, Inhabited

inductive BlockType
  | empty
  | value (ty : Ty)
  | func (index : Nat)
  deriving DecidableEq, Inhabited

/-- A clause of an exception handler: for one tag or for all, with or without the exception itself.
-/
structure CatchClause where
  tag : Option Nat
  withRef : Bool
  label : Nat
  deriving DecidableEq, Inhabited

/-- What the check of an operator that is never compiled needs to know. -/
inductive Extra
  /-- It takes and leaves fixed types. -/
  | plain (pops pushes : List ValType)
  /-- An access of `2 ^ log2` bytes. The address comes before what else is taken; an `exact` access
  has to state its natural alignment. -/
  | access (arg : MemArg) (log2 : Nat) (exact : Bool) (pops pushes : List ValType)
  /-- It belongs to an extension that is switched off. -/
  | disabled
  /-- It names a structure or array type, and accepted modules have none. -/
  | aggregate
  | throw (tag : Nat)
  | throwRef
  | tryTable (ty : BlockType) (clauses : List CatchClause)
  | returnCall (func : Nat)
  | returnCallIndirect (ty table : Nat)
  | callRef (ty : Nat)
  | returnCallRef (ty : Nat)
  | tableGet (table : Nat)
  | tableSet (table : Nat)
  | tableInit (elem table : Nat)
  | elemDrop (elem : Nat)
  | tableCopy (dst src : Nat)
  | tableGrow (table : Nat)
  | tableSize (table : Nat)
  | tableFill (table : Nat)
  | memoryInit (data memory : Nat)
  | dataDrop (data : Nat)
  | memoryCopy (dst src : Nat)
  | memoryFill (memory : Nat)
  | refNull (heap : Heap)
  | refIsNull
  | refFunc (func : Nat)
  | refEq
  | refAsNonNull
  | brOnNull (depth : Nat)
  | brOnNonNull (depth : Nat)
  | refTest (target : RefType)
  | refCast (target : RefType)
  | brOnCast (depth : Nat) (source target : RefType)
  | brOnCastFail (depth : Nat) (source target : RefType)
  | anyConvertExtern
  | externConvertAny
  | refI31
  | i31Get
  | arrayLen
  deriving DecidableEq, Inhabited

inductive Operator
  | unreachable
  | nop
  | block (ty : BlockType)
  | loop (ty : BlockType)
  | ifBlock (ty : BlockType)
  | elseArm
  | close
  | br (depth : Nat)
  | brIf (depth : Nat)
  | brTable (depths : Array Nat) (default : Nat)
  | ret
  | call (func : Nat)
  | callIndirect (ty table : Nat)
  | drop
  | select
  | typedSelect (ty : Ty)
  | localGet (index : Nat)
  | localSet (index : Nat)
  | localTee (index : Nat)
  | globalGet (index : Nat)
  | globalSet (index : Nat)
  | load (kind : LoadKind) (arg : MemArg)
  | store (kind : StoreKind) (arg : MemArg)
  | memorySize (memory : Nat)
  | memoryGrow (memory : Nat)
  | const (v : Val)
  | unary (op : UnaryOp)
  | binary (op : BinaryOp)
  | convert (op : ConvertOp)
  | splat (shape : LaneShape)
  | extractLane (shape : LaneShape) (signed : Bool) (lane : Nat)
  | replaceLane (shape : LaneShape) (lane : Nat)
  | shuffle (lanes : List Nat)
  | extra (name : String) (what : Extra)
  deriving Inhabited

namespace Operator

def loadNames : Array String :=
  #["I32Load", "I64Load", "F32Load", "F64Load", "I32Load8S", "I32Load8U", "I32Load16S",
    "I32Load16U", "I64Load8S", "I64Load8U", "I64Load16S", "I64Load16U", "I64Load32S",
    "I64Load32U", "V128Load"]

def storeNames : Array String :=
  #["I32Store", "I64Store", "F32Store", "F64Store", "I32Store8", "I32Store16", "I64Store8",
    "I64Store16", "I64Store32", "V128Store"]

/-- Lanes of eight and sixteen bits are extended when they leave a vector. -/
def extractSuffix : LaneShape → Bool → String
  | .i8x16, true | .i16x8, true => "S"
  | .i8x16, false | .i16x8, false => "U"
  | _, _ => ""

def name : Operator → String
  | unreachable => "Unreachable"
  | nop => "Nop"
  | block _ => "Block"
  | loop _ => "Loop"
  | ifBlock _ => "If"
  | elseArm => "Else"
  | close => "End"
  | br _ => "Br"
  | brIf _ => "BrIf"
  | brTable _ _ => "BrTable"
  | ret => "Return"
  | call _ => "Call"
  | callIndirect _ _ => "CallIndirect"
  | drop => "Drop"
  | select => "Select"
  | typedSelect _ => "TypedSelect"
  | localGet _ => "LocalGet"
  | localSet _ => "LocalSet"
  | localTee _ => "LocalTee"
  | globalGet _ => "GlobalGet"
  | globalSet _ => "GlobalSet"
  | load kind _ => loadNames.getD kind.toByte ""
  | store kind _ => storeNames.getD kind.toByte ""
  | memorySize _ => "MemorySize"
  | memoryGrow _ => "MemoryGrow"
  | const v =>
    match v.ty with
    | .i32 => "I32Const"
    | .i64 => "I64Const"
    | .f32 => "F32Const"
    | .f64 => "F64Const"
    | .v128 => "V128Const"
  | unary op => op.name
  | binary op => op.name
  | convert op => op.name
  | splat shape => shape.name ++ "Splat"
  | extractLane shape signed _ => shape.name ++ "ExtractLane" ++ extractSuffix shape signed
  | replaceLane shape _ => shape.name ++ "ReplaceLane"
  | shuffle _ => "I8x16Shuffle"
  | extra name _ => name

end Operator
end Wasmill.Wasm
