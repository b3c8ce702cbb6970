import Wasmill.Host
import Wasmill.Instance
import Wasmill.Memory
import Wasmill.Named
import Wasmill.Registry
import Wasmill.Table

/-! Everything that lives, by number, and the names it goes by.

Instances and tables live while something holds them. Letting go of the last handle to a table
releases the tokens of its elements; letting go of the last handle to an instance takes it off its
host functions, then lets go of its tables, then releases its tokens. -/
namespace Wasmill

structure Engine where
  config : Config
  registry : Registry := {}
  deriving Inhabited

structure World where
  engines : Array Engine := #[]
  memories : Array Memory := #[]
  tables : Array Table := #[]
  hosts : Array Host := #[]
  instances : Array Instance := #[]
  memoryNames : Named Nat := []
  tableNames : Named Nat := []
  hostNames : Named Nat := []
  instanceNames : Named Nat := []
  /-- What host functions did since the log was last read. -/
  events : Array Event := #[]
  deriving Inhabited

namespace World

/-! ### Changing one object -/

def onEngine (w : World) (id : Nat) (f : Engine → Engine) : World :=
  { w with engines := w.engines.modify id f }

def onMemory (w : World) (id : Nat) (f : Memory → Memory) : World :=
  { w with memories := w.memories.modify id f }

def onTable (w : World) (id : Nat) (f : Table → Table) : World :=
  { w with tables := w.tables.modify id f }

def onHost (w : World) (id : Nat) (f : Host → Host) : World :=
  { w with hosts := w.hosts.modify id f }

def onInstance (w : World) (id : Nat) (f : Instance → Instance) : World :=
  { w with instances := w.instances.modify id f }

def log (w : World) (e : Event) : World := { w with events := w.events.push e }

/-! ### Registered signatures -/

def register (w : World) (engine : Nat) (sig : Sig) : World × Nat :=
  match w.engines[engine]? with
  | some e =>
    let (registry, token) := e.registry.register sig
    (w.onEngine engine fun e => { e with registry }, token)
  | none => (w, Registry.nullToken)

def release (w : World) (engine token : Nat) : World :=
  w.onEngine engine fun e => { e with registry := e.registry.release token }

def releaseAll (w : World) (engine : Nat) (tokens : List Nat) : World :=
  tokens.foldl (fun w token => w.release engine token) w

/-! ### Handles -/

def holdTable (w : World) (id : Nat) : World :=
  w.onTable id fun t => { t with handles := t.handles + 1 }

def dropTable (w : World) (id : Nat) : World :=
  match w.tables[id]? with
  | none => w
  | some t =>
    let w := w.onTable id fun t => { t with handles := t.handles - 1 }
    if t.handles = 1 then w.releaseAll (t.engine.getD 0) t.tokens else w

def holdInstance (w : World) (id : Nat) : World :=
  w.onInstance id fun i => { i with handles := i.handles + 1 }

def isAlive (w : World) (id : Nat) : Bool := w.instances[id]?.any (·.alive)

/-- Takes an instance off a host function, and others that are gone. -/
def removeDependent (w : World) (host gone : Nat) : World :=
  match w.hosts[host]? with
  | none => w
  | some h =>
    let dependents := h.dependents.filter fun (id, _) => id != gone && w.isAlive id
    w.onHost host fun h => { h with dependents }

def dropInstance (w : World) (id : Nat) : World :=
  match w.instances[id]? with
  | none => w
  | some i =>
    let w := w.onInstance id fun i => { i with handles := i.handles - 1 }
    if i.handles = 1 then
      let w := i.hosts.foldl (fun w host => w.removeDependent host id) w
      let w := i.tables.foldl dropTable w
      w.releaseAll i.engine i.tokens.toList
    else w

/-! ### Names -/

def instance? (w : World) (name : String) : Option Nat := w.instanceNames.find? name

def host? (w : World) (name : String) : Option Nat := w.hostNames.find? name

def memory? (w : World) (name : String) : Option Nat := w.memoryNames.find? name

def table? (w : World) (name : String) : Option Nat := w.tableNames.find? name

def unnameInstance (w : World) (name : String) : World :=
  match w.instance? name with
  | some id => { w with instanceNames := w.instanceNames.unbind name }.dropInstance id
  | none => w

/-- Gives a name to a handle; the handle that had the name before is let go. -/
def nameInstance (w : World) (name : String) (id : Nat) : World :=
  let w := w.unnameInstance name
  { w with instanceNames := w.instanceNames.bind name id }

def unnameTable (w : World) (name : String) : World :=
  match w.table? name with
  | some id => { w with tableNames := w.tableNames.unbind name }.dropTable id
  | none => w

def nameTable (w : World) (name : String) (id : Nat) : World :=
  let w := w.unnameTable name
  { w with tableNames := w.tableNames.bind name id }

/-! ### Making objects -/

def addEngine (w : World) (config : Config) : World × Nat :=
  ({ w with engines := w.engines.push { config } }, w.engines.size)

def addMemory (w : World) (bounds : Bounds) : World × Nat :=
  ({ w with memories := w.memories.push (.new bounds) }, w.memories.size)

def addTable (w : World) (bounds : Bounds) : World × Nat :=
  ({ w with tables := w.tables.push (.new bounds) }, w.tables.size)

def addHost (w : World) (host : Host) : World × Nat :=
  ({ w with hosts := w.hosts.push host }, w.hosts.size)

/-! ### Optimized host code -/

/-- Discards the optimized code of a host function; imports that used it go back to the generic
path. -/
def invalidate (w : World) (host : Nat) : World :=
  match w.hosts[host]? with
  | none => w
  | some h =>
    let w := w.onHost host fun h => { h with optimized := none, dependents := [] }
    h.dependents.foldl (fun w (id, index) =>
      if w.isAlive id then w.onInstance id (·.deoptimize index) else w) w

def setOptimized (w : World) (host : Nat) (code : OptimizedCode Effect) : World :=
  (w.invalidate host).onHost host fun h => { h with optimized := some code }

def addDependent (w : World) (host id index : Nat) : World :=
  w.onHost host fun h =>
    if h.dependents.contains (id, index) then h
    else { h with dependents := h.dependents ++ [(id, index)] }

/-- How many live instances use the optimized code. -/
def dependents (w : World) (host : Nat) : Nat :=
  (w.hosts[host]?.map fun h => h.dependents.countP fun (id, _) => w.isAlive id).getD 0

/-- Sends an import's calls to the optimized code of its host function, if that fits. -/
def optimizeImport (w : World) (id index host : Nat) (sig : Sig) : Except Broken World := do
  match w.instances[id]?, w.hosts[host]? with
  | some i, some h =>
    let config := ((w.engines[i.engine]?).map (·.config)).getD {}
    if !config.optimizeImports || sig.hasI64 || !h.optimized.any (·.accepts sig) then return w
    match i.module.imports[index]? with
    | none => return w
    | some imp =>
      if (← i.data.exitState imp.record) = .optimized then return w
      let data ← i.data.writeExit imp.record imp.jitExit .optimized
      return (w.onInstance id fun i => { i with data }).addDependent host id index
  | _, _ => return w

/-! ### Interrupts and profiling -/

def interrupt (w : World) (id : Nat) : World :=
  w.onInstance id fun i => { i with interrupted := true }

/-- Switches profiling; elements of tables that the instance uses follow. -/
def setProfiling (w : World) (id : Nat) (on : Bool) : World :=
  match w.instances[id]? with
  | none => w
  | some i =>
    if i.profiling = on then w
    else
      let w := w.onInstance id fun i => { i with profiling := on }
      i.tables.foldl (fun w table => w.onTable table fun t =>
        t.repoint id (Instance.entryFor i.module on)) w

end World
end Wasmill
