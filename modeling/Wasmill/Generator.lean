import Wasmill.Code.Layout
import Wasmill.Code.Lower
import Wasmill.Module
import Wasmill.Ssa.Compile

/-! Building a module piece by piece.

First everything is declared. Declaring is all or nothing: a declaration that is refused has no
effect. Once function bodies are defined the declarations are frozen. A body is compiled in a slot;
slots are handed out and come back, each with the body it held last. With helpers, compiled bodies
are merged in the order they were given, when their slots are needed again or at the end.

What happens after the declarations may fail half way. The generator then stays as far as it got. -/
namespace Wasmill
open Code

/-- A place to compile a body in, against the declarations as they were frozen. -/
structure CompileSlot where
  env : Env
  body : ByteArray := ByteArray.empty
  offset : Nat := 0
  deriving Inhabited

def CompileSlot.setBody (slot : CompileSlot) (body : ByteArray) (offset : Nat) : CompileSlot :=
  { slot with body, offset }

/-- A compiled body that waits to be merged. -/
structure CompileTask where
  slot : CompileSlot
  func : Nat
  output : Except Error Chunk
  deriving Inhabited

structure Generator where
  config : Config
  env : Env
  frozen : Bool := false
  importCount : Nat := 0
  exports : Exports := {}
  start : Option Nat := none
  elems : Array ElemSegment := #[]
  data : Array DataSegment := #[]
  name : Option String := none
  funcNames : Array (Nat × String) := #[]
  bytecode : Option ByteArray := none
  free : List CompileSlot := []
  /-- Tasks of helpers, the oldest first; none where bodies are compiled at once. -/
  helpers : Option (List CompileTask) := none
  /-- The functions that were given a body. -/
  defined : List Nat := []
  layout : Layout
  importExits : Array (Nat × Nat) := #[]
  stubs : Option StubOffsets := none
  /-- Functions in the order they were compiled. -/
  log : Array (Nat × Ssa.Function) := #[]
  deriving Inhabited

namespace Generator

def new (config : Config) : Generator :=
  { config
    env := { interruptMode := config.interruptMode, limits := config.limits }
    layout := { reach := config.maxBranchRange } }

/-! ### Declarations -/

def invalid (fault : Fault) : Except Error α := .error (.invalid fault 0)

def checkOpen (g : Generator) : Except Error Unit :=
  if g.frozen then .error (.internal .declarationAfterDefinitions) else .ok ()

def checkUnfinished (g : Generator) : Except Error Unit :=
  if g.stubs.isSome then .error (.internal .declarationAfterCodegen) else .ok ()

def checkImports (g : Generator) : Except Error Unit :=
  Env.checkLimit .imports g.importCount g.env.limits.imports

/-- How many imports an entity from the given source adds. -/
def imported (source : Option ImportName) : Nat := if source.isSome then 1 else 0

def declareSig (g : Generator) (sig : Sig) : Except Error (Nat × Generator) := do
  g.checkOpen
  Env.checkLimit .types g.env.sigs.size g.env.limits.types
  if sig.params.length > g.env.limits.params then throw (.limit .params g.env.limits.params)
  let (token, env) ← g.env.reserve Env.sigTokenSize Env.sigTokenSize
  let env := { env with sigs := env.sigs.push sig, sigTokens := env.sigTokens.push token }
  return (g.env.sigs.size, { g with env })

def declareFuncImport (g : Generator) (source : ImportName) (sig : Nat) :
    Except Error (Nat × Generator) := do
  g.checkOpen
  g.checkImports
  g.env.checkSig sig
  if g.env.funcs.size ≠ g.env.funcImports.size then throw (.internal .importAfterFunction)
  let (record, env) ← g.env.reserve Env.exitRecordSize 8
  let env := { env with
    funcImports := env.funcImports.push { source, sig, record }
    funcs := env.funcs.push sig }
  return (g.env.funcs.size, { g with env, importCount := g.importCount + 1 })

def declareTable (g : Generator) (bounds : Bounds) (source : Option ImportName) :
    Except Error (Nat × Generator) := do
  g.checkOpen
  if source.isSome then g.checkImports
  let most := g.env.limits.tableElems
  if bounds.initial > most ∨ bounds.maximum.any (· > most) then throw (.limit .tableElems most)
  let (handle, env) ← g.env.reserve Env.tableHandleSize 8
  let env := { env with tables := env.tables.push { bounds, source, handle } }
  return (g.env.tables.size, { g with env, importCount := g.importCount + imported source })

def declareMemory (g : Generator) (bounds : Bounds) (source : Option ImportName) :
    Except Error Generator := do
  g.checkOpen
  if g.env.memory.isSome then throw (.unsupported .multipleMemories)
  if source.isSome then g.checkImports
  let most := g.env.limits.memoryPages
  if bounds.initial > most ∨ bounds.maximum.any (· > most) then throw (.limit .memoryPages most)
  let env := { g.env with memory := some { bounds, source } }
  return { g with env, importCount := g.importCount + imported source }

def placeGlobal (g : Generator) (ty : GlobalType) (init : GlobalInit) :
    Except Error (Nat × Generator) := do
  g.checkOpen
  Env.checkLimit .globals g.env.globals.size g.env.limits.globals
  let size := ty.content.byteSize
  let (place, env) ← g.env.reserve size size
  let env := { env with globals := env.globals.push { ty, init, place } }
  return (g.env.globals.size, { g with env })

def declareGlobalImport (g : Generator) (source : ImportName) (ty : GlobalType) :
    Except Error (Nat × Generator) := do
  g.checkImports
  let (index, g) ← g.placeGlobal ty (.imported source)
  return (index, { g with importCount := g.importCount + 1 })

/-- The type of an initial value; a global has to be declared already. -/
def initTy (g : Generator) : InitExpr → Except Error ValType
  | .const v => return v.ty
  | .globalGet index =>
    match g.env.globals[index]? with
    | some desc => return desc.ty.content
    | none => invalid (.unknownGlobal index)

def declareGlobal (g : Generator) (ty : GlobalType) (init : InitExpr) :
    Except Error (Nat × Generator) := do
  if (← g.initTy init) ≠ ty.content then invalid .globalInitType
  else g.placeGlobal ty (.const init)

def declareFunc (g : Generator) (sig : Nat) : Except Error (Nat × Generator) := do
  g.checkOpen
  Env.checkLimit .funcs g.env.funcs.size g.env.limits.funcs
  g.env.checkSig sig
  return (g.env.funcs.size, { g with env := { g.env with funcs := g.env.funcs.push sig } })

/-- What can be exported. -/
inductive Entity
  | function (index : Nat)
  | table (index : Nat)
  | memory
  | global (index : Nat)

/-- An exported function; under several names it is one export. -/
def exportFunc (exports : Exports) (func sig : Nat) : Nat × Exports :=
  match exports.funcs.findIdx? (·.func = func) with
  | some index => (index, exports)
  | none =>
    (exports.funcs.size, { exports with funcs := exports.funcs.push ⟨func, sig, unlinked⟩ })

def exportItem (g : Generator) : Entity → Except Error (ExportItem × Exports)
  | .function func =>
    match g.env.funcs[func]? with
    | some sig =>
      let (index, exports) := exportFunc g.exports func sig
      return (.function index, exports)
    | none => invalid (.unknownFunction func)
  | .table index =>
    if index < g.env.tables.size then return (.table index, g.exports)
    else invalid (.unknownTable index)
  | .memory =>
    if g.env.memory.isSome then return (.memory, g.exports) else invalid (.unknownMemory 0)
  | .global index =>
    if index < g.env.globals.size then return (.global index, g.exports)
    else invalid (.unknownGlobal index)

def declareExport (g : Generator) (name : String) (entity : Entity) : Except Error Generator := do
  g.checkUnfinished
  Env.checkLimit .exports g.exports.names.size g.env.limits.exports
  if (g.exports.find? name).isSome then invalid (.duplicateExport name)
  else
    let (item, exports) ← g.exportItem entity
    return { g with exports := { exports with names := exports.names.push (name, item) } }

def declareStart (g : Generator) (func : Nat) : Except Error Generator :=
  match g.env.sigOf? func with
  | none => invalid (.unknownFunction func)
  | some sig =>
    if sig.params.isEmpty ∧ sig.result.isNone then .ok { g with start := some func }
    else invalid .startSignature

def declareElems (g : Generator) (segment : ElemSegment) : Except Error Generator := do
  g.checkUnfinished
  Env.checkLimit .elemSegments g.elems.size g.env.limits.elemSegments
  let most := g.env.limits.tableElems
  if segment.funcs.size > most then throw (.limit .tableElems most)
  if segment.table ≥ g.env.tables.size then invalid (.unknownTable segment.table)
  else
    match segment.funcs.find? fun func => func.any (· ≥ g.env.funcs.size) with
    | some (some func) => invalid (.unknownFunction func)
    | _ => return { g with elems := g.elems.push segment }

/-- Data may also be declared after the bodies. -/
def declareData (g : Generator) (segment : DataSegment) : Except Error Generator := do
  Env.checkLimit .dataSegments g.data.size g.env.limits.dataSegments
  if g.env.memory.isNone then invalid .dataWithoutMemory
  else return { g with data := g.data.push segment }

def declareName (g : Generator) (name : String) : Generator := { g with name := some name }

def declareFuncName (g : Generator) (func : Nat) (name : String) : Generator :=
  { g with funcNames := g.funcNames.push (func, name) }

def setBytecode (g : Generator) (bytes : ByteArray) : Generator :=
  if g.config.retainBytecode then { g with bytecode := some bytes } else g

end Generator

/-! ### Definitions -/

/-- A step of building that keeps what it did before it failed. -/
abbrev Gen := ExceptT Error (StateM Generator)

namespace Gen

def fail (e : Error) : Gen α := throw e

/-- Lifts a step that has no effect when it fails. -/
def atomic (f : Generator → Except Error (α × Generator)) : Gen α := fun g =>
  match f g with
  | .ok (a, g) => (.ok a, g)
  | .error e => (.error e, g)

def declare (f : Generator → Except Error Generator) : Gen Unit :=
  atomic fun g => (f g).map ((), ·)

/-- Places code. What was placed stays, however the step ends. -/
def onLayout (step : Laying α) : Gen α := fun g =>
  let (a, layout) := step g.layout
  (a, { g with layout })

/-- Freezes the declarations and makes the slots. -/
def startDefs : Gen Unit :=
  modify fun g =>
    if g.frozen then g
    else
      let slots := max 1 (g.config.threads.getD 1)
      { g with
        frozen := true
        free := List.replicate slots { env := g.env }
        helpers := if slots > 1 then some [] else none }

/-- Merges the code of a compiled body. Its slot is free again in any case. -/
def finishTask (task : CompileTask) : Gen Unit := do
  modify fun g => { g with free := task.slot :: g.free }
  let chunk ← task.output
  onLayout (.appendFunction chunk task.func (min task.slot.offset 0xffffffff))

/-- A free slot. If there is none the oldest task is merged first. -/
def startDef : Gen CompileSlot := do
  startDefs
  if (← get).free.isEmpty then
    match (← get).helpers with
    | some (task :: rest) =>
      modify fun g => { g with helpers := some rest }
      finishTask task
    | _ => pure ()
  let g ← get
  match g.free with
  | slot :: free =>
    set { g with free }
    return slot
  | [] => fail (.internal .noCompileSlot)

/-- Compiles the body in a slot, and notes the function in the log. The slot may be that of another
generator, whose declarations have to know the function. -/
def compile (slot : CompileSlot) (func : Nat) : Gen (Except Error Chunk) := do
  match slot.env.sigOf? func with
  | none => fail .panic
  | some sig =>
    match Ssa.Function.ofBody slot.env sig (.ofBytes slot.body slot.offset) with
    | .ok f =>
      modify fun g => { g with log := g.log.push (func, f) }
      return Chunk.ofFunction func f
    | .error e => return .error e

/-- Gives a slot back with the function that its body is for. -/
def finishDef (func : Nat) (slot : CompileSlot) : Gen Unit := do
  let g ← get
  if !g.env.isDefined func then fail (.internal (.notDefined func))
  else if g.defined.contains func then
    set { g with free := slot :: g.free }
    fail (.internal (.compiledTwice func))
  else
    set { g with defined := func :: g.defined }
    let most := g.env.limits.functionSize
    if slot.body.size > most then
      modify fun g => { g with free := slot :: g.free }
      fail (.limit .bodyBytes most)
    else
      let output ← compile slot func
      match (← get).helpers with
      | some tasks => modify fun g => { g with helpers := some (tasks ++ [⟨slot, func, output⟩]) }
      | none => finishTask ⟨slot, func, output⟩

def define (func : Nat) (body : ByteArray) (offset : Nat) : Gen Unit := do
  let slot ← startDef
  finishDef func (slot.setBody body offset)

/-- Merges tasks, all of them; the first failure is reported. -/
def finishTasks : List CompileTask → Gen Unit
  | [] => return
  | task :: rest => do
    let first ← tryCatch (do finishTask task; return none) fun e => return some e
    let second ← tryCatch (do finishTasks rest; return none) fun e => return some e
    match first <|> second with
    | some e => fail e
    | none => return

def finishDefs : Gen Unit := do
  match (← get).helpers with
  | some tasks =>
    modify fun g => { g with helpers := some [] }
    finishTasks tasks
  | none => return

/-! ### The code that is made once -/

def entryStubs : List (Nat × Export) → Gen Unit
  | [] => return
  | (index, e) :: rest => do
    let sig := (← get).env.sigs.getD e.sig ⟨[], none⟩
    let entry ← onLayout (.append (.entryStub e.func sig) (.entry index))
    modify fun g => { g with exports := { g.exports with
      funcs := g.exports.funcs.modify index fun e => { e with entry } } }
    entryStubs rest

def importExits : List (Nat × FuncImport) → Gen Unit
  | [] => return
  | (index, desc) :: rest => do
    let sig := (← get).env.sigs.getD desc.sig ⟨[], none⟩
    let interp ← onLayout (.append (.interpExit index sig) (.interpExit index))
    let jit ← onLayout (.append (.jitExit index sig) (.jitExit index))
    modify fun g => { g with
      importExits := g.importExits.push (interp, jit)
      layout := g.layout.setEntry index interp }
    importExits rest

def sharedStubs : Gen StubOffsets := do
  let outOfBounds ← onLayout (.append (.trapStub .memoryOutOfBounds) .inline)
  let interrupt ← onLayout (.append (.trapStub .interrupted) .inline)
  let stackOverflow ← onLayout (.append (.trapStub .stackOverflow) .inline)
  let throw ← onLayout (.append .throwStub .errorExit)
  return { outOfBounds, interrupt, stackOverflow, throw }

def addLink (patchAt target : Nat) : Gen Unit :=
  modify fun g => { g with layout := { g.layout with link := { g.layout.link with
    internal := g.layout.link.internal.push { patchAt, target } } } }

def linkStubs (stubs : StubOffsets) : Gen Unit :=
  modify fun g =>
    let links := g.layout.pendingStubs.map fun (patchAt, kind) =>
      { patchAt, target := stubs.get kind : InternalLink }
    { g with layout := { g.layout with
        pendingStubs := #[]
        link := { g.layout.link with internal := g.layout.link.internal ++ links } } }

def linkThunks : List (Nat × Nat) → Gen Unit
  | [] => return
  | (place, func) :: rest => do
    match (← get).layout.entry? func with
    | some entry =>
      addLink place entry
      linkThunks rest
    | none => fail (.internal (.unplacedThunk func))

/-- The entries of the functions of a segment. -/
def elemEntries (layout : Layout) (funcs : List (Option Nat)) : Except Error (List (Option Nat)) :=
  funcs.mapM fun
    | none => .ok none
    | some func =>
      match layout.entry? func with
      | some entry => .ok (some entry)
      | none => .error (.internal (.unplacedElement func))

def linkElems : List ElemSegment → Gen Unit
  | [] => return
  | segment :: rest => do
    let g ← get
    let entries ← elemEntries g.layout segment.funcs.toList
    let handle := (g.env.tables[segment.table]?.map (·.handle)).getD 0
    modify fun g => { g with layout := { g.layout with link := { g.layout.link with
      funcPtrs := g.layout.link.funcPtrs.push
        { table := segment.table, handle, entries := entries.toArray } } } }
    linkElems rest

def indexed (xs : Array α) : List (Nat × α) := xs.toList.mapIdx fun i x => (i, x)

/-- Numbers in order, each once. -/
def sortedOnce (xs : Array Nat) : Array Nat := (xs.toList.mergeSort (· ≤ ·)).eraseReps.toArray

def checkBodies : Gen Unit := do
  let g ← get
  match (List.range g.env.funcs.size).find? fun f => g.env.isDefined f && !g.defined.contains f with
  | some func => fail (.invalid (.noBody func) 0)
  | none => return

/-- Makes what is left once all functions are placed. Afterwards nothing is placed any more. -/
def finishCodegen : Gen Unit := do
  if (← get).stubs.isSome then return
  else
    modify fun g => { g with frozen := true }
    finishDefs
    checkBodies
    entryStubs (indexed (← get).exports.funcs)
    importExits (indexed (← get).env.funcImports)
    let stubs ← sharedStubs
    onLayout .thunkPass
    linkStubs stubs
    let thunks := (← get).layout.thunkTargets
    modify fun g => { g with layout := { g.layout with thunkTargets := #[] } }
    linkThunks thunks.toList
    linkElems (← get).elems.toList
    modify fun g => { g with
      layout := { g.layout with indirectSigs := sortedOnce g.layout.indirectSigs }
      stubs := some stubs }

/-- The first name given to each function, in the order of the functions. -/
def sortedNames (names : Array (Nat × String)) : Array (Nat × String) :=
  (names.toList.mergeSort fun a b => a.1 ≤ b.1).eraseRepsBy (fun a b => a.1 == b.1) |>.toArray

def module (g : Generator) (stubs : StubOffsets) : Module :=
  { env := g.env
    ranges := g.layout.ranges
    trapSites := g.layout.trapSites
    callSites := g.layout.callSites
    start := g.start
    startEntry := g.start.bind g.layout.entry?
    elems := g.elems
    stubs
    indirectSigs := g.layout.indirectSigs
    name := g.name
    funcNames := sortedNames g.funcNames
    code := g.layout.code
    link := g.layout.link
    imports := (g.env.funcImports.zip g.importExits).map fun (desc, interpExit, jitExit) =>
      { source := desc.source, sig := desc.sig, record := desc.record, interpExit, jitExit }
    exports := g.exports
    data := g.data
    bytecode := g.bytecode }

def finish : Gen Module := do
  finishCodegen
  let g ← get
  return module g (g.stubs.getD default)

end Gen
end Wasmill
