import Wasmill.Code.Chunk
import Wasmill.Ssa.Function

/-! From static single assignment form to code.

Every value has a frame slot of its own, numbered like the value. Blocks are laid out in order. The
size of an instruction does not depend on where it branches to, so one pass measures the blocks and
a second one writes them with their displacements. -/
namespace Wasmill.Code
open Ssa

namespace Lower

def slot (f : Function) (v : Value) : Nat := f.resolve v

def result (f : Function) : Option Value → Nat
  | some v => slot f v
  | none => noSlot

def step (f : Function) (s : Step) : Line :=
  let dst := result f s.result
  let at_ := slot f
  match s.inst with
  | .const bits => { instr := .const dst bits }
  | .unary op a => { instr := .unary op dst (at_ a) }
  | .binary op a b =>
    { instr := .binary op dst (at_ a) (at_ b), traps := if op.canTrap then some s.srcloc else none }
  | .convert op a =>
    { instr := .convert op dst (at_ a), traps := if op.canTrap then some s.srcloc else none }
  | .select c t e => { instr := .select dst (at_ c) (at_ t) (at_ e) }
  | .load kind addr offset =>
    { instr := .load kind dst (at_ addr) offset unlinked, traps := some s.srcloc }
  | .store kind addr value offset =>
    { instr := .store kind (at_ addr) (at_ value) offset unlinked, traps := some s.srcloc }
  | .globalGet ty place => { instr := .globalGet ty dst place }
  | .globalSet ty place value => { instr := .globalSet ty place (at_ value) }
  | .memorySize => { instr := .memorySize unlinked dst, symbol := some .currentMemory }
  | .memoryGrow delta =>
    { instr := .memoryGrow unlinked dst (at_ delta), symbol := some .growMemory }
  | .splat shape a => { instr := .splat shape dst (at_ a) }
  | .extractLane shape signed lane v => { instr := .extractLane shape signed lane dst (at_ v) }
  | .replaceLane shape lane v value => { instr := .replaceLane shape lane dst (at_ v) (at_ value) }
  | .shuffle a b lanes => { instr := .shuffle dst (at_ a) (at_ b) lanes }
  | .call callee args =>
    { instr := .call (-1) (args.map at_) dst, calls := some (callee, s.srcloc) }
  | .callImport _ record args => { instr := .callImport record (args.map at_) dst }
  | .callIndirect sig table token index args =>
    { instr := .callIndirect table token (at_ index) (args.map at_) dst
      traps := some s.srcloc
      expects := some sig }
  | .interruptCheck =>
    { instr := .checkInterrupt unlinked unlinked
      traps := some s.srcloc
      symbol := some .handleInterrupt }

/-- A destination; `rel` is the displacement to a block. Parameters that get themselves are not
moved. -/
def dest (f : Function) (rel : Nat → Int) : Option Edge → Except Error Dest
  | none => .error (.internal .unboundBranch)
  | some e =>
    let params := (f.block e.block).params
    if params.size ≠ e.args.size then
      .error (.internal (.argumentCount e.block params.size e.args.size))
    else if rel e.block < -0x80000000 ∨ 0x80000000 ≤ rel e.block then .error
      (.codeTooLarge .displacement)
    else
      let moves := (params.toList.map (slot f)).zip (e.args.toList.map (slot f))
      .ok { rel := rel e.block, moves := moves.filter fun (dst, src) => dst ≠ src }

def exit (f : Function) (rel : Nat → Int) (l : Leave) : Except Error Line :=
  match l.exit with
  | .jump e => return { instr := .jump (← dest f rel e) }
  | .branch cond t e => return { instr := .brIf (slot f cond) (← dest f rel t) (← dest f rel e) }
  | .table index targets default => do
    let targets ← targets.toList.mapM (dest f rel)
    return { instr := .brTable (slot f index) targets (← dest f rel default) }
  | .ret value => return { instr := .ret (result f value) }
  | .trap t => return { instr := .trap t, traps := some l.srcloc }

/-- How a block ends; one that was never filled is not reached. -/
def blockExit (f : Function) (rel : Nat → Int) (b : Block) : Except Error Line :=
  match b.leave with
  | some l => exit f rel l
  | none => return { instr := .trap .unreachableCodeReached, traps := some f.srcloc }

def sizeOf (lines : List Line) : Nat := lines.foldl (fun n line => n + line.instr.size) 0

/-- The size of a block without its exit, and of its exit. -/
def measure (f : Function) (b : Block) : Except Error (Nat × Nat) := do
  let last ← blockExit f (fun _ => 0) b
  return (sizeOf (b.steps.toList.map (step f)), last.instr.size)

/-- The offset of every block, from the sizes. -/
def offsets (start : Nat) : List (Nat × Nat) → List Nat
  | [] => []
  | (body, last) :: rest => start :: offsets (start + body + last) rest

/-- The lines of a block that starts at `start`, where the blocks' offsets are known. -/
def block (f : Function) (places : Array Nat) (start : Nat) (b : Block) :
    Except Error (List Line) := do
  let body := b.steps.toList.map (step f)
  let here := start + sizeOf body
  let last ← blockExit f (fun target => (places.getD target 0 : Int) - here) b
  return body ++ [last]

/-- The counting entry and the prologue that every function starts with. -/
def head (func : Nat) (f : Function) : List Line :=
  [{ instr := .profilingEnter func },
    { instr := .prologue f.values.size unlinked, traps := some f.srcloc }]

end Lower

/-- The size of the counting entry, which lies before the regular one. -/
def profilingEntrySize : Nat := 5

/-- The code of a function. -/
def Chunk.ofFunction (func : Nat) (f : Function) : Except Error Chunk := do
  if f.values.size ≥ UInt32.size then throw (.codeTooLarge .frame)
  else
    let head := Lower.head func f
    let sizes ← f.blocks.toList.mapM (Lower.measure f)
    let places := Lower.offsets (Lower.sizeOf head) sizes
    let blocks ← (places.zip f.blocks.toList).mapM fun (start, b) =>
      Lower.block f places.toArray start b
    return { Chunk.ofLines (head ++ blocks.flatten) with entry := profilingEntrySize }

end Wasmill.Code
