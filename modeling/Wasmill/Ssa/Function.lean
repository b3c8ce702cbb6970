import Wasmill.Ssa.Op
import Wasmill.Trap
import Wasmill.Val

/-! Functions in static single assignment form.

A function is an array of blocks; the first is the entry, and its parameters are those of the
function. A block has instructions and, once it is finished, an exit. The edges of an exit name a
block and the arguments for its parameters, which are assigned all at once. An edge whose block does
not exist yet is `none`.

Values are numbered. A value that turned out to be another one is an alias of it; `resolve` follows
aliases, which do not lead back to a value. -/
namespace Wasmill.Ssa

abbrev Value := Nat

inductive Inst
  | const (bits : Slot)
  | unary (op : UnaryOp) (a : Value)
  | binary (op : BinaryOp) (a b : Value)
  | convert (op : ConvertOp) (a : Value)
  | select (cond ifTrue ifFalse : Value)
  | load (kind : LoadKind) (addr : Value) (offset : Nat)
  | store (kind : StoreKind) (addr value : Value) (offset : Nat)
  /-- Globals are known by their place in global data. -/
  | globalGet (ty : ValType) (place : Nat)
  | globalSet (ty : ValType) (place : Nat) (value : Value)
  | memorySize
  | memoryGrow (delta : Value)
  | splat (shape : LaneShape) (a : Value)
  | extractLane (shape : LaneShape) (signed : Bool) (lane : Nat) (vector : Value)
  | replaceLane (shape : LaneShape) (lane : Nat) (vector value : Value)
  | shuffle (a b : Value) (lanes : List Nat)
  | call (callee : Nat) (args : List Value)
  /-- A call through the exit record at `record`. -/
  | callImport (importIndex record : Nat) (args : List Value)
  | callIndirect (sig table token : Nat) (index : Value) (args : List Value)
  | interruptCheck
  deriving DecidableEq, Inhabited

/-- An instruction in its block, with the module offset of the operator it came from. -/
structure Step where
  inst : Inst
  result : Option Value
  srcloc : Nat
  deriving DecidableEq, Inhabited

structure Edge where
  block : Nat
  args : Array Value
  deriving DecidableEq, Inhabited

inductive Exit
  | jump (dest : Option Edge)
  | branch (cond : Value) (ifTrue ifFalse : Option Edge)
  | table (index : Value) (targets : Array (Option Edge)) (default : Option Edge)
  | ret (value : Option Value)
  | trap (trap : Trap)
  deriving DecidableEq, Inhabited

structure Leave where
  exit : Exit
  srcloc : Nat
  deriving DecidableEq, Inhabited

structure Block where
  params : Array Value := #[]
  steps : Array Step := #[]
  leave : Option Leave := none
  deriving DecidableEq, Inhabited

structure ValueData where
  ty : ValType
  sameAs : Option Value := none
  deriving DecidableEq, Inhabited

structure Function where
  sig : Sig
  blocks : Array Block := #[{}]
  values : Array ValueData := #[]
  /-- The module offset of the body. -/
  srcloc : Nat := 0
  deriving DecidableEq, Inhabited

/-- An edge by the block it leaves and its number there: a branch numbers the taken edge 0 and the
other 1, a table its targets in order with the default last. -/
structure EdgeRef where
  block : Nat
  index : Nat
  deriving DecidableEq, Inhabited

namespace Exit

def edges : Exit → List (Option Edge)
  | .jump dest => [dest]
  | .branch _ ifTrue ifFalse => [ifTrue, ifFalse]
  | .table _ targets default => targets.toList ++ [default]
  | .ret _ | .trap _ => []

/-- The exit with one of its edges changed. -/
def modifyEdge (exit : Exit) (index : Nat) (f : Option Edge → Option Edge) : Exit :=
  match exit, index with
  | .jump dest, 0 => .jump (f dest)
  | .branch cond ifTrue ifFalse, 0 => .branch cond (f ifTrue) ifFalse
  | .branch cond ifTrue ifFalse, 1 => .branch cond ifTrue (f ifFalse)
  | .table v targets default, i =>
    if i = targets.size then .table v targets (f default)
    else .table v (targets.modify i f) default
  | exit, _ => exit

end Exit

namespace Function

/-- The value that an alias stands for directly. -/
def sameAs (f : Function) (v : Value) : Option Value := f.values[v]?.bind (·.sameAs)

/-- Follows at most `n` aliases, one after another. -/
def follow (f : Function) : (n : Nat) → Value → Value
  | 0, v => v
  | n + 1, v =>
    match f.sameAs v with
    | some w => f.follow n w
    | none => v

/-- The value that `v` stands for. A chain of aliases names no value twice. -/
def resolve (f : Function) (v : Value) : Value := f.follow f.values.size v

def valueTy (f : Function) (v : Value) : ValType := (f.values[v]?.map (·.ty)).getD .i32

def block (f : Function) (b : Nat) : Block := f.blocks.getD b {}

def edge? (f : Function) (e : EdgeRef) : Option Edge :=
  match (f.block e.block).leave with
  | some leave => (leave.exit.edges[e.index]?).join
  | none => none

def modifyBlock (f : Function) (b : Nat) (g : Block → Block) : Function :=
  { f with blocks := f.blocks.modify b g }

def modifyEdge (f : Function) (e : EdgeRef) (g : Option Edge → Option Edge) : Function :=
  f.modifyBlock e.block fun b =>
    { b with leave := b.leave.map fun l => { l with exit := l.exit.modifyEdge e.index g } }

def setEdge (f : Function) (e : EdgeRef) (dest : Edge) : Function :=
  f.modifyEdge e fun _ => some dest

/-- A new value, with its number. -/
def newValue (f : Function) (ty : ValType) : Value × Function :=
  (f.values.size, { f with values := f.values.push { ty } })

/-- A new block, with its number. -/
def newBlock (f : Function) : Nat × Function :=
  (f.blocks.size, { f with blocks := f.blocks.push {} })

/-- A new parameter at the end of a block's parameters. -/
def newParam (f : Function) (b : Nat) (ty : ValType) : Value × Function :=
  let (v, f) := f.newValue ty
  (v, f.modifyBlock b fun block => { block with params := block.params.push v })

/-- A function of the given signature with an empty entry block. -/
def ofSig (sig : Sig) : Function :=
  sig.params.foldl (fun f ty => (f.newParam 0 ty).2) { sig }

end Function
end Wasmill.Ssa
