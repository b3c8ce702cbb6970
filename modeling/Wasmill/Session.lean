import Wasmill.Image
import Wasmill.Machine
import Wasmill.Wasm.Binary

/-! Sessions: work with engines, modules, instances and what they need, all by name.

A `Command` is carried out by `Session.perform`. Objects of different kinds have different names,
and a name that is given again stands for the new object once that is made. -/
namespace Wasmill

/-- A module in a session; its number tells it from others. -/
structure Loaded where
  id : Nat
  engine : Nat
  module : Module
  deriving Inhabited

/-- A module under construction, for an engine. -/
structure Draft where
  engine : Nat
  generator : Generator
  deriving Inhabited

structure Session where
  world : World := {}
  engines : Named Nat := []
  modules : Named Loaded := []
  /-- How many modules were made. -/
  made : Nat := 0
  images : Named ByteArray := []
  drafts : Named Draft := []
  slots : Named CompileSlot := []
  /-- Functions that were compiled by the command. -/
  compiled : Array (Nat × Ssa.Function) := #[]
  deriving Inhabited

/-- A change of a copy of a module's link data. -/
inductive LinkEdit
  | internal (index : Nat) (link : Code.InternalLink)
  | symbolic (symbol index place : Nat)

/-- Kinds of objects that can be compared or dropped. -/
inductive ObjectKind
  | engine
  | module
  | host
  | memory
  | table
  | inst
  deriving DecidableEq

/-- Where an image comes from. -/
inductive ImageSource
  | kept (name : String)
  | bytes (content : ByteArray)

/-- How an export is picked. -/
inductive Pick
  | name (name : String)
  | index (index : Nat)

/-- A call of a module generator. -/
inductive DraftCommand
  | sig (sig : Sig)
  | funcImport (source : ImportName) (sig : Nat)
  | table (bounds : Bounds) (source : Option ImportName)
  | memory (bounds : Bounds) (source : Option ImportName)
  | globalImport (source : ImportName) (ty : GlobalType)
  | global (ty : GlobalType) (init : InitExpr)
  | func (sig : Nat)
  | export (name : String) (entity : Generator.Entity)
  | start (func : Nat)
  | elems (segment : ElemSegment)
  | data (segment : DataSegment)
  | name (name : String)
  | funcName (func : Nat) (name : String)
  | bytecode (bytes : ByteArray)
  | startDefs
  | finishDefs
  | finishCodegen
  | define (func : Nat) (body : ByteArray) (offset : Nat)
  | open (slot : String)
  | setBody (slot : String) (body : ByteArray) (offset : Nat)
  | close (slot : String) (func : Nat)
  | env
  | finish (id : String)

inductive Command
  | engine (id : String) (config : Config)
  | compile (id engine : String) (wasm : ByteArray)
  | describe (module : String)
  | lookup (module : String) (pcs : List Nat)
  | funcNames (module : String) (funcs : List Nat)
  | getExport (module name : String)
  | link (module : String) (edits : List LinkEdit)
  | serialize (module : String) (keep : Option String)
  | deserialize (id engine : String) (source : ImageSource)
  | host (id : String) (effects : List Effect) (answer : Answer)
      (optimized : Option (OptimizedCode Effect))
  | setOptimized (host : String) (code : OptimizedCode Effect)
  | invalidate (host : String)
  | hostState (host : String)
  | memory (id : String) (bounds : Bounds)
  | memGrow (memory : String) (delta : Nat)
  | memInfo (memory : String)
  | memRead (memory : String) (offset len : Nat)
  | memWrite (memory : String) (offset : Nat) (bytes : ByteArray)
  | table (id : String) (bounds : Bounds)
  | tableInfo (table : String)
  | instantiate (id module : String) (funcs tables : List String) (memory : Option String)
      (globals : List Val)
  | call (inst : String) (target : Pick) (args : List Val)
  | calls (inst name : String) (args : List (List Val))
  | construct (inst name : String) (args : List Val)
  | exports (inst : String)
  | getGlobal (inst name : String)
  | getMemory (inst : String) (name : Option String) (id : String)
  | getTable (inst : String) (target : Pick) (id : String)
  | importState (inst : String) (index : Nat)
  | interrupt (inst : String)
  | setProfiling (inst : String) (on : Bool)
  | profile (inst : String)
  | registryLen (engine : String)
  | same (kind : ObjectKind) (a b : String)
  | share (id inst : String)
  | drop (kind : ObjectKind) (id : String)
  | generator (id engine : String)
  | draft (generator : String) (command : DraftCommand)

/-- Why a command has no reply. -/
inductive Failure
  | error (e : Error)
  | noSuchObject
  | memoryAccess
  /-- The machine did not come to an end in the steps it was given. -/
  | unfinished

/-- What `tableInfo` tells of an element. -/
inductive ElemInfo
  | outOfBounds
  | null
  | sig (sig : Sig)

inductive Reply
  | done
  | bool (b : Bool)
  | nat (n : Nat)
  | natOr (n : Option Nat)
  | val (v : Option Val)
  | results (vals : List (Except Failure (Option Val)))
  | bytes (b : ByteArray)
  | module (m : Module)
  | restored (m : Module) (sameBytes : Bool)
  | ranges (found : List (Option Code.Range))
  | names (names : List (Option String))
  | exportItem (item : Option ExportItem)
  | exports (names : Array (String × ExportItem))
  | hostState (optimized : Bool) (dependents : Nat)
  | memoryInfo (m : Memory)
  | tableInfo (t : Table) (elems : List ElemInfo)
  /-- A fresh object without properties. -/
  | object
  | importState (state : Option ImportState)
  | profile (counts : List (Nat × Nat))
  | env (env : Env)

/-- Commands change the session, also when they fail. -/
abbrev Act := ExceptT Failure (StateM Session)

namespace Act

def fail (e : Error) : Act α := throw (.error e)

def orFail (r : Except Error α) : Act α :=
  match r with
  | .ok a => pure a
  | .error e => fail e

def known (a : Option α) : Act α :=
  match a with
  | some a => pure a
  | none => throw .noSuchObject

def world : Act World := return (← get).world

def onWorld (f : World → World) : Act Unit := modify fun s => { s with world := f s.world }

/-- Makes something in the world. -/
def make (f : World → World × α) : Act α := fun s =>
  let (w, a) := f s.world
  (.ok a, { s with world := w })

def instance? (name : String) : Act Nat := do known ((← world).instance? name)

def host? (name : String) : Act Nat := do known ((← world).host? name)

def memory? (name : String) : Act Nat := do known ((← world).memory? name)

def table? (name : String) : Act Nat := do known ((← world).table? name)

def module? (name : String) : Act Loaded := do known ((← get).modules.find? name)

/-- An engine by its name. The engine without a name is always there. -/
def engine? (name : String) : Act Nat := do
  match (← get).engines.find? name with
  | some id => return id
  | none =>
    if name = "" then
      let id ← make (·.addEngine {})
      modify fun s => { s with engines := s.engines.bind "" id }
      return id
    else throw .noSuchObject

def config (engine : Nat) : Act Config := do
  return (((← world).engines[engine]?).map (·.config)).getD {}

def load (name : String) (engine : Nat) (module : Module) : Act Unit :=
  modify fun s => { s with
    modules := s.modules.bind name { id := s.made, engine, module }
    made := s.made + 1 }

/-- More steps than any run takes. -/
def stepLimit : Nat := 0x4000000000000000

/-- Runs a task to its end. -/
def runTask (task : Task) : Act (Option Val) := do
  let s ← get
  set { s with world := {} }
  match Machine.run stepLimit s.world task [] with
  | none => throw .unfinished
  | some (w, result) =>
    onWorld fun _ => w
    orFail result

def enter (start : World → Except Error (World × Task)) : Act (Option Val) := do
  let (w, task) ← orFail (start (← world))
  onWorld fun _ => w
  runTask task

def call (inst : Nat) (target : Pick) (args : List Val) : Act (Option Val) :=
  match target with
  | .name name => enter (·.enter inst name args)
  | .index index => enter (·.enterIndex inst index args)

/-- The outcome of a part of a command, which goes on in any case. -/
def outcome (act : Act α) : Act (Except Failure α) := fun s =>
  let (r, s) := act s
  (.ok r, s)

/-! ### Commands -/

def edited (link : Code.LinkData) : LinkEdit → Code.LinkData
  | .internal index new =>
    { link with internal := link.internal.setIfInBounds index new }
  | .symbolic symbol index place =>
    { link with symbolic := link.symbolic.modify symbol (·.setIfInBounds index place) }

def instantiate (id : String) (m : Loaded) (imports : Imports) : Act Reply := do
  let made ← make (·.instantiate m.module m.engine imports)
  let inst ← orFail made
  if let some entry := m.module.startEntry then
    onWorld (·.holdInstance inst)
    let started ← outcome (runTask (.code ((← world).activation inst entry #[0] none)))
    if let .error e := started then
      onWorld (·.dropInstance inst)
      throw e
  onWorld (·.nameInstance id inst)
  return .done

def elemInfo (w : World) (t : Table) (index : Nat) : ElemInfo :=
  match t.elems[index]? with
  | none => .outOfBounds
  | some none => .null
  | some (some e) =>
    match (t.engine.bind (w.engines[·]?)).bind (·.registry.lookup e.token) with
    | some sig => .sig sig
    | none => .null

def idOf (kind : ObjectKind) (name : String) : Act Nat :=
  match kind with
  | .engine => engine? name
  | .module => return (← module? name).id
  | .host => host? name
  | .memory => memory? name
  | .table => table? name
  | .inst => instance? name

def dropNamed (kind : ObjectKind) (name : String) : Act Unit :=
  match kind with
  | .engine => modify fun s => { s with engines := s.engines.unbind name }
  | .module => modify fun s => { s with modules := s.modules.unbind name }
  | .host => onWorld fun w => { w with hostNames := w.hostNames.unbind name }
  | .memory => onWorld fun w => { w with memoryNames := w.memoryNames.unbind name }
  | .table => onWorld (·.unnameTable name)
  | .inst => onWorld (·.unnameInstance name)

/-- Carries out a step of a generator, and keeps the generator however it ends. -/
def onDraft (name : String) (step : Gen α) : Act α := do
  let d ← known ((← get).drafts.find? name)
  let before := d.generator.log.size
  let (r, generator) := step d.generator
  modify fun s => { s with
    drafts := s.drafts.bind name { d with generator }
    compiled := generator.log.extract before generator.log.size }
  orFail r

/-- A declaration that answers an index. -/
def declareIndex (name : String) (f : Generator → Except Error (Nat × Generator)) : Act Reply :=
  return .nat (← onDraft name (Gen.atomic f))

def declare (name : String) (f : Generator → Except Error Generator) : Act Reply := do
  onDraft name (Gen.declare f)
  return .done

def draft (name : String) : DraftCommand → Act Reply
  | .sig sig => declareIndex name (·.declareSig sig)
  | .funcImport source sig => declareIndex name (·.declareFuncImport source sig)
  | .table bounds source => declareIndex name (·.declareTable bounds source)
  | .memory bounds source => declare name (·.declareMemory bounds source)
  | .globalImport source ty => declareIndex name (·.declareGlobalImport source ty)
  | .global ty init => declareIndex name (·.declareGlobal ty init)
  | .func sig => declareIndex name (·.declareFunc sig)
  | .export exported entity => declare name (·.declareExport exported entity)
  | .start func => declare name (·.declareStart func)
  | .elems segment => declare name (·.declareElems segment)
  | .data segment => declare name (·.declareData segment)
  | .name text => declare name fun g => .ok (g.declareName text)
  | .funcName func text => declare name fun g => .ok (g.declareFuncName func text)
  | .bytecode bytes => declare name fun g => .ok (g.setBytecode bytes)
  | .startDefs => do
    onDraft name Gen.startDefs
    return .done
  | .finishDefs => do
    onDraft name Gen.finishDefs
    return .done
  | .finishCodegen => do
    onDraft name Gen.finishCodegen
    return .done
  | .define func body offset => do
    onDraft name (Gen.define func body offset)
    return .done
  | .open slot => do
    let opened ← onDraft name Gen.startDef
    modify fun s => { s with slots := s.slots.bind slot opened }
    return .done
  | .setBody slot body offset => do
    let held ← known ((← get).slots.find? slot)
    modify fun s => { s with slots := s.slots.bind slot (held.setBody body offset) }
    return .done
  | .close slot func => do
    let _ ← known ((← get).drafts.find? name)
    let held ← known ((← get).slots.find? slot)
    modify fun s => { s with slots := s.slots.unbind slot }
    onDraft name (Gen.finishDef func held)
    return .done
  | .env => return .env (← known ((← get).drafts.find? name)).generator.env
  | .finish id => do
    let d ← known ((← get).drafts.find? name)
    let made ← outcome (onDraft name Gen.finish)
    modify fun s => { s with drafts := s.drafts.unbind name }
    let m ← ofExcept made
    load id d.engine m
    return .module m

def perform : Command → Act Reply
  | .engine id config => do
    let engine ← make (·.addEngine config)
    modify fun s => { s with engines := s.engines.bind id engine }
    return .done
  | .compile id engine wasm => do
    let engine ← engine? engine
    let (result, generator) := Module.ofBytes (← config engine) wasm
    modify fun s => { s with compiled := generator.log }
    let m ← orFail result
    load id engine m
    return .module m
  | .describe name => return .module (← module? name).module
  | .lookup name pcs => do
    let m ← module? name
    return .ranges (pcs.map m.module.rangeAt?)
  | .funcNames name funcs => do
    let m ← module? name
    return .names (funcs.map m.module.funcName?)
  | .getExport name exported => do
    return .exportItem ((← module? name).module.exports.find? exported)
  | .link name edits => do
    let m ← module? name
    let link := edits.foldl edited m.module.link
    return .bytes (← orFail ((link.link m.module.code).mapError .internal))
  | .serialize name keep => do
    let m ← module? name
    let image := m.module.toImage (← config m.engine)
    if let some kept := keep then
      modify fun s => { s with images := s.images.bind kept image }
    return .bytes image
  | .deserialize id engine source => do
    let engine ← engine? engine
    let image ←
      match source with
      | .bytes content => pure content
      | .kept name => do known ((← get).images.find? name)
    let config ← config engine
    let m ← orFail (Module.ofImage config image)
    load id engine m
    return .restored m ((m.toImage config).toList == image.toList)
  | .host id effects answer optimized => do
    let host ← make (·.addHost { name := id, effects, answer, optimized })
    onWorld fun w => { w with hostNames := w.hostNames.bind id host }
    return .done
  | .setOptimized name code => do
    let host ← host? name
    onWorld (·.setOptimized host code)
    return .done
  | .invalidate name => do
    let host ← host? name
    onWorld (·.invalidate host)
    return .done
  | .hostState name => do
    let host ← host? name
    let w ← world
    return .hostState (w.hosts[host]?.any (·.optimized.isSome)) (w.dependents host)
  | .memory id bounds => do
    let memory ← make (·.addMemory bounds)
    onWorld fun w => { w with memoryNames := w.memoryNames.bind id memory }
    return .done
  | .memGrow name delta => do
    let id ← memory? name
    let m := (← world).memories.getD id default
    match m.grow delta with
    | none => return .natOr none
    | some grown =>
      onWorld (·.onMemory id fun _ => grown)
      return .natOr (some m.size)
  | .memInfo name => do
    let id ← memory? name
    return .memoryInfo ((← world).memories.getD id default)
  | .memRead name offset len => do
    let id ← memory? name
    match ((← world).memories.getD id default).read offset len with
    | some content => return .bytes content
    | none => throw .memoryAccess
  | .memWrite name offset content => do
    let id ← memory? name
    match ((← world).memories.getD id default).write offset content.toList with
    | some m =>
      onWorld (·.onMemory id fun _ => m)
      return .done
    | none => throw .memoryAccess
  | .table id bounds => do
    let table ← make (·.addTable bounds)
    onWorld (·.nameTable id table)
    return .done
  | .tableInfo name => do
    let id ← table? name
    let w ← world
    let t := w.tables.getD id default
    return .tableInfo t ((List.range (t.size + 1)).map (elemInfo w t))
  | .instantiate id module funcs tables memory globals => do
    let m ← module? module
    let funcs ← funcs.mapM host?
    let tables ← tables.mapM table?
    let memory ← memory.mapM memory?
    instantiate id m { funcs, tables, memory, globals }
  | .call inst target args => do
    let id ← instance? inst
    return .val (← call id target args)
  | .calls inst name args => do
    let id ← instance? inst
    onWorld (·.holdInstance id)
    let results ← args.mapM fun args => outcome (call id (.name name) args)
    onWorld (·.dropInstance id)
    return .results results
  | .construct inst name args => do
    let id ← instance? inst
    let _ ← call id (.name name) args
    return .object
  | .exports inst => do
    let id ← instance? inst
    return .exports ((← world).instances.getD id default).module.exports.names
  | .getGlobal inst name => do
    let id ← instance? inst
    let i := (← world).instances.getD id default
    match i.module.exports.find? name with
    | some (.global index) => return .val (i.global index).toOption
    | _ => return .val none
  | .getMemory inst name id => do
    let i := (← world).instances.getD (← instance? inst) default
    let isMemory := name.all fun name => i.module.exports.find? name == some .memory
    match if isMemory then i.memory else none with
    | some memory =>
      onWorld fun w => { w with memoryNames := w.memoryNames.bind id memory }
      return .bool true
    | none => return .bool false
  | .getTable inst target id => do
    let i := (← world).instances.getD (← instance? inst) default
    let index :=
      match target with
      | .index index => some index
      | .name name =>
        match i.module.exports.find? name with
        | some (.table index) => some index
        | _ => none
    match index.bind (i.tables[·]?) with
    | some table =>
      onWorld fun w => (w.holdTable table).nameTable id table
      return .bool true
    | none => return .bool false
  | .importState inst index => do
    let id ← instance? inst
    return .importState (((← world).instances.getD id default).importState index)
  | .interrupt inst => do
    let id ← instance? inst
    onWorld (·.interrupt id)
    return .done
  | .setProfiling inst on => do
    let id ← instance? inst
    onWorld (·.setProfiling id on)
    return .bool ((← world).instances.getD id default).profiling
  | .profile inst => do
    let id ← instance? inst
    return .profile ((← world).instances.getD id default).profile
  | .registryLen engine => do
    let id ← engine? engine
    return .nat (((← world).engines.getD id default).registry.len)
  | .same kind a b => do
    let first ← idOf kind a
    let second ← idOf kind b
    return .bool (first == second)
  | .share id inst => do
    let inst ← instance? inst
    onWorld fun w => (w.holdInstance inst).nameInstance id inst
    return .done
  | .drop kind id => do
    dropNamed kind id
    return .done
  | .generator id engine => do
    let engine ← engine? engine
    let config ← config engine
    modify fun s => { s with drafts := s.drafts.bind id { engine, generator := .new config } }
    return .done
  | .draft name command => draft name command

end Act

/-- The reply to a command, and what was seen while it was carried out. -/
structure Outcome where
  reply : Except Failure Reply
  events : Array Event
  compiled : Array (Nat × Ssa.Function)

/-- The session ends with this command: the program did not survive it. -/
def Outcome.isLast (o : Outcome) : Bool :=
  match o.reply with
  | .error (.error .panic) => true
  | _ => false

namespace Session

def perform (s : Session) (c : Command) : Session × Outcome :=
  let (reply, s) := Act.perform c { s with compiled := #[] }
  ({ s with world := { s.world with events := #[] } },
    { reply, events := s.world.events, compiled := s.compiled })

end Session
end Wasmill
