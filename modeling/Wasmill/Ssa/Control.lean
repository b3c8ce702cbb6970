import Wasmill.Ssa.Builder
import Wasmill.Ssa.Loop

/-! Structured control flow.

Branches to a loop go back to its header, which exists from the start. Branches to the end of any
other frame wait until the frame ends; then all of them meet in one block, and locals that differ
between them become its parameters. -/
namespace Wasmill.Ssa
namespace Build

/-- Where an edge leads, decided before its block is ended. -/
inductive Target
  | ret
  /-- Back to the loop frame of that depth. -/
  | header (depth : Nat)
  /-- On to the end of the frame of that depth. -/
  | waiting (depth : Nat) (result : Option Value)

def frameAt (depth : Nat) : Build Frame := do
  match (← get).control[depth]? with
  | some frame => return frame
  | none => invalid (.branchDepth depth)

/-- The edge to a frame. Edges that leave the function share the block `exitBlock`, made when it is
first needed. -/
def edgeTo (depth : Nat) (exitBlock : Option Nat) : Build (Option Edge × Target × Option Nat) := do
  let frame ← frameAt depth
  match frame.kind with
  | .function =>
    let b ←
      match exitBlock with
      | some b => pure b
      | none => newBlock
    return (some ⟨b, #[]⟩, .ret, some b)
  | .loop (some header) =>
    return (some ⟨header.block, (← get).locals⟩, .header depth, exitBlock)
  | .loop none => broken .deadLoopBranch
  | .block | .ifBlock _ _ =>
    return (none, .waiting depth (← peekResult frame.result), exitBlock)

/-- Tells the frames about the edges that lead to them. -/
def record (source : EdgeRef) : Target → Build Unit
  | .ret => return
  | .header depth => modifyFrame depth fun frame =>
      match frame.kind with
      | .loop (some h) =>
        { frame with kind := .loop (some { h with backEdges := h.backEdges.push source }) }
      | _ => frame
  | .waiting depth result => do
    addPending depth { source, locals := (← get).locals, result }

/-- Fills the block in which edges leave the function. -/
def fillExit : Option Nat → Build Unit
  | some b => do
    let value ← peekResult (← get).func.sig.result
    enter b
    let _ ← leave (.ret value)
  | none => return

def branch (depth : Nat) : Build Unit := do
  if (← frameAt depth).kind = .function then ret
  else
    let (dest, target, _) ← edgeTo depth none
    let b ← leave (.jump dest)
    record ⟨b, 0⟩ target

/-- The operands stay for the code after the branch. -/
def branchIf (depth : Nat) : Build Unit := do
  let cond ← pop
  let (dest, target, exitBlock) ← edgeTo depth none
  let next ← newBlock
  let b ← leave (.branch cond dest (some ⟨next, #[]⟩))
  record ⟨b, 0⟩ target
  fillExit exitBlock
  enter next

/-- The edges of a table, one after another. -/
def tableEdges : List Nat → Option Nat → Build (List (Option Edge × Target) × Option Nat)
  | [], exitBlock => return ([], exitBlock)
  | depth :: rest, exitBlock => do
    let (dest, target, exitBlock) ← edgeTo depth exitBlock
    let (edges, exitBlock) ← tableEdges rest exitBlock
    return ((dest, target) :: edges, exitBlock)

def recordAll (b : Nat) : Nat → List Target → Build Unit
  | _, [] => return
  | index, target :: rest => do
    record ⟨b, index⟩ target
    recordAll b (index + 1) rest

def branchTable (depths : Array Nat) (default : Nat) : Build Unit := do
  let index ← pop
  let (edges, exitBlock) ← tableEdges depths.toList none
  let (dest, target, exitBlock) ← edgeTo default exitBlock
  let b ← leave (.table index (edges.map (·.1)).toArray dest)
  recordAll b 0 (edges.map (·.2) ++ [target])
  fillExit exitBlock

def newParams (b : Nat) (types : List ValType) : Build (List Value) := types.mapM (newParam b)

/-- Every local is a parameter of the loop header, until the loop ends. -/
def enterLoop (mode : InterruptMode) (result : Option ValType) : Build Unit := do
  let header ← newBlock
  let params ← newParams header (← get).localTypes.toList
  let b ← leave (.jump (some ⟨header, (← get).locals⟩))
  enter header
  modify fun s => { s with locals := params.toArray }
  interruptCheck mode
  openFrame (.loop (some { block := header, entry := ⟨b, 0⟩, backEdges := #[] })) result

def enterIf (result : Option ValType) : Build Unit := do
  let cond ← pop
  let arm ← newBlock
  let b ← leave (.branch cond (some ⟨arm, #[]⟩) none)
  enter arm
  openFrame (.ifBlock (some ⟨b, 1⟩) (← get).locals) result

/-- Ends live code with an edge that waits for the end of the innermost frame. -/
def leaveFrame (result : Option ValType) : Build (Option Pending) := do
  if ← isDead then return none
  else
    let value ← popResult result
    let b ← leave (.jump none)
    return some { source := ⟨b, 0⟩, locals := (← get).locals, result := value }

/-- From the first arm of an `if` to the second. -/
def elseArm : Build Unit := do
  match (← get).control with
  | [] => invalid .elseOutsideIf
  | frame :: _ =>
    match ← leaveFrame frame.result with
    | some p => addPending 0 p
    | none => pure ()
    truncate frame.base
    match frame.kind with
    | .ifBlock (some edge) entryLocals =>
      modifyFrame 0 fun frame => { frame with kind := .ifBlock none entryLocals }
      let arm ← newBlock
      modifyFunc (·.setEdge edge ⟨arm, #[]⟩)
      enter arm
      modify fun s => { s with locals := entryLocals }
    | .ifBlock none _ => return
    | _ => broken .elseOutsideIf

/-- The value of one local where edges meet, with what the edges pass for it. -/
def mergeLocal (join : Nat) (pending : List Pending) (index : Nat) (ty : ValType) :
    Build (Value × Option (List Value)) := do
  let func := (← get).func
  let values := pending.map fun p => p.locals.getD index 0
  match values.map func.resolve with
  | first :: rest =>
    if rest.all (· = first) then return (first, none)
    else return (← newParam join ty, some values)
  | [] => return (0, none)

/-- All locals where edges meet, with the arguments of each edge so far. -/
def mergeLocals (join : Nat) (pending : List Pending) :
    Nat → List ValType → Array Value → List (Array Value) → Build (Array Value × List (Array Value))
  | _, [], merged, args => return (merged, args)
  | index, ty :: rest, merged, args => do
    let (v, passed) ← mergeLocal join pending index ty
    let args :=
      match passed with
      | some values => args.zipWith Array.push values
      | none => args
    mergeLocals join pending (index + 1) rest (merged.push v) args

/-- The block result where edges meet. It is dropped unless every edge has one of that type. -/
def mergeResult (join : Nat) (pending : List Pending) (ty : ValType) (args : List (Array Value)) :
    Build (Option Value × List (Array Value)) := do
  let func := (← get).func
  let values := pending.filterMap fun p =>
    (p.result.filter fun v => func.valueTy v = ty).map func.resolve
  if values.length ≠ pending.length then return (none, args)
  else
    match values with
    | [] => return (none, args)
    | first :: rest =>
      if rest.all (· = first) then return (some first, args)
      else return (some (← newParam join ty), args.zipWith Array.push values)

def bindEdges (join : Nat) : List Pending → List (Array Value) → Build Unit
  | p :: rest, args :: more => do
    modifyFunc (·.setEdge p.source ⟨join, args⟩)
    bindEdges join rest more
  | _, _ => return

/-- Lets the edges to a frame's end meet in a new block, and goes on there. -/
def meet (frame : Frame) (pending : List Pending) : Build Unit := do
  let join ← newBlock
  let types := (← get).localTypes.toList
  let (locals, args) ← mergeLocals join pending 0 types #[] (pending.map fun _ => #[])
  let (result, args) ←
    match frame.result with
    | some ty => mergeResult join pending ty args
    | none => pure (none, args)
  bindEdges join pending args
  enter join
  modify fun s => { s with locals }
  pushAll result

/-- The end of a `block` or an `if`. If no edge waits for it, the current block goes on. -/
def endBlock (frame : Frame) : Build Unit := do
  let around :=
    match frame.kind with
    | .ifBlock (some edge) entryLocals =>
      #[{ source := edge, locals := entryLocals, result := none }]
    | _ => #[]
  let pending := frame.pending ++ around
  if pending.isEmpty then
    let value ← if ← isDead then pure none else popResult frame.result
    truncate frame.base
    pushAll value
  else
    let last ← leaveFrame frame.result
    truncate frame.base
    meet frame (pending.toList ++ last.toList)

/-- The end of a loop: its result, if the end is reached, is the topmost operand. -/
def endLoop (frame : Frame) (header : Option LoopHeader) : Build Unit := do
  match header with
  | some h => modifyFunc (·.pruneLoop h.block (h.entry :: h.backEdges.toList))
  | none => pure ()
  let value ← if ← isDead then pure none else popResult frame.result
  truncate frame.base
  pushAll value

def close : Build Unit := do
  let s ← get
  match s.control with
  | [] => invalid .endWithoutBlock
  | frame :: rest =>
    set { s with control := rest }
    match frame.kind with
    | .function => if ← isDead then return else ret
    | .loop header => endLoop frame header
    | .block | .ifBlock _ _ => endBlock frame

end Build
end Wasmill.Ssa
