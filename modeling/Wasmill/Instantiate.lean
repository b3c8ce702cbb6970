import Wasmill.World

/-! Making instances.

Everything is checked before anything is written: the imports, then the initial global data, then
the places of all segments. A module that fails a check leaves memories and table elements as they
were. -/
namespace Wasmill

/-- What a module is instantiated with, in the order of its imports. -/
structure Imports where
  funcs : List Nat := []
  tables : List Nat := []
  memory : Option Nat := none
  globals : List Val := []
  deriving Inhabited

/-- An object that is imported, or one that is made for the instance. -/
inductive Source
  | given (id : Nat)
  | fresh (bounds : Bounds)
  deriving Inhabited

/-- A trap that no instruction is to blame for. -/
def segmentTrap (trap : Trap) : Error := .trap { trap, func := none, offset := none }

namespace World

/-! ### Imports -/

def resolveTable (w : World) (engine : Nat) (desc : TableDesc) (source : ImportName) (id : Nat) :
    Except InstantiationFault World := do
  match w.tables[id]? with
  | none => return w
  | some t =>
    if !desc.bounds.admits t.size t.bounds then
      throw (.tableBounds source.module source.name desc.bounds t.bounds)
    match t.bind? engine with
    | some t => return w.onTable id fun _ => t
    | none => throw (.tableEngine source.module source.name)

/-- The tables of an instance. Tables that are given become the engine's own, also if a later one
does not fit. -/
def resolveTables (w : World) (engine : Nat) :
    List TableDesc → List Nat → World × Except InstantiationFault (List Source)
  | [], [] => (w, .ok [])
  | [], _ :: _ => (w, .error .extraTables)
  | desc :: descs, given =>
    match desc.source, given with
    | none, given =>
      let (w, rest) := w.resolveTables engine descs given
      (w, rest.map (.fresh desc.bounds :: ·))
    | some source, [] => (w, .error (.missingTable source.module source.name))
    | some source, id :: given =>
      match w.resolveTable engine desc source id with
      | .error fault => (w, .error fault)
      | .ok w =>
        let (w, rest) := w.resolveTables engine descs given
        (w, rest.map (.given id :: ·))

def resolveMemory (w : World) (desc : Option MemoryDesc) (given : Option Nat) :
    Except InstantiationFault (Option Source) := do
  match desc, given with
  | none, none => return none
  | none, some _ => throw .unexpectedMemory
  | some desc, given =>
    match desc.source, given with
    | some _, none => throw .missingMemory
    | none, none => return some (.fresh desc.bounds)
    | none, some _ => throw .unexpectedMemory
    | some _, some id =>
      match w.memories[id]? with
      | none => return none
      | some m =>
        if desc.bounds.admits m.size m.bounds then return some (.given id)
        else throw (.memoryBounds desc.bounds m.bounds)

def tableSize (w : World) : Source → Nat
  | .given id => (w.tables[id]?.map (·.size)).getD 0
  | .fresh bounds => bounds.initial

def memoryBytes (w : World) : Option Source → Nat
  | none => 0
  | some (.given id) => (w.memories[id]?.map (·.byteSize)).getD 0
  | some (.fresh bounds) => bounds.initial * pageSize

end World

/-- The value of an expression over the globals so far. -/
def InitExpr.value (globals : Array Val) : InitExpr → Except Error Val
  | .const v => .ok v
  | .globalGet index =>
    match globals[index]? with
    | some v => .ok v
    | none => .error (.internal (.initializerGlobal index))

def InitExpr.offset (globals : Array Val) (e : InitExpr) : Except Error Nat := do
  match ← e.value globals with
  | .i32 v => return v.toNat
  | v => throw (.internal (.segmentOffset v.ty))

/-- The initial values of the globals, in order. -/
def resolveGlobals : List GlobalDesc → List Val → Array Val → Except Error (Array Val)
  | [], [], done => .ok done
  | [], _ :: _, _ => .error (.instantiation .extraGlobals)
  | desc :: descs, given, done =>
    match desc.init, given with
    | .const init, given => do resolveGlobals descs given (done.push (← init.value done))
    | .imported source, [] => .error (.instantiation (.missingGlobal source.module source.name))
    | .imported source, v :: given =>
      if v.ty = desc.ty.content then resolveGlobals descs given (done.push v)
      else .error (.instantiation
        (.globalType source.module source.name v.ty desc.ty.content))

/-! ### Global data -/

/-- Registers the signatures that indirect calls expect and writes their tokens. -/
def World.placeTokens (w : World) (engine : Nat) (env : Env) :
    List Nat → GlobalData → List Nat → World × List Nat × Except Broken GlobalData
  | [], data, tokens => (w, tokens.reverse, .ok data)
  | sig :: rest, data, tokens =>
    let (w, token) := w.register engine (env.sigs.getD sig ⟨[], none⟩)
    match data.write (env.sigToken sig) Env.sigTokenSize token with
    | .ok data => w.placeTokens engine env rest data (token :: tokens)
    | .error fault => (w, (token :: tokens).reverse, .error fault)

def GlobalData.placeExits (d : GlobalData) (imports : List Import) : Except Broken GlobalData :=
  imports.foldlM (fun d imp => d.writeExit imp.record imp.interpExit .interpreted) d

def GlobalData.placeTables (d : GlobalData) (tables : List TableDesc) : Except Broken GlobalData :=
  (tables.zipIdx).foldlM (fun d (desc, index) => d.write desc.handle 4 index) d

def GlobalData.placeGlobals (d : GlobalData) (globals : List (GlobalDesc × Val)) :
    Except Broken GlobalData :=
  globals.foldlM (fun d (desc, v) => d.writeGlobal desc.place desc.ty.content v.toSlot) d

/-! ### Segments -/

/-- The places of element segments, each inside its table. -/
def elemOffsets (w : World) (tables : Array Source) (globals : Array Val)
    (segments : List ElemSegment) : Except Error (List Nat) :=
  segments.mapM fun segment => do
    let offset ← segment.offset.offset globals
    match tables[segment.table]? with
    | none => throw (.internal .segmentTable)
    | some table =>
      if offset + segment.funcs.size ≤ w.tableSize table then return offset
      else throw (segmentTrap .tableOutOfBounds)

/-- The places of data segments, each inside the memory. -/
def dataOffsets (size : Nat) (globals : Array Val) (segments : List DataSegment) :
    Except Error (List Nat) :=
  segments.mapM fun segment => do
    let offset ← segment.offset.offset globals
    if offset + segment.bytes.size ≤ size then return offset
    else throw (segmentTrap .memoryOutOfBounds)

namespace World

def addSource (w : World) (engine : Nat) : Source → World × Nat
  | .given id => (w.holdTable id, id)
  | .fresh bounds =>
    let (w, id) := w.addTable bounds
    (w.onTable id fun t => { t with engine := some engine }, id)

def addSources (w : World) (engine : Nat) : List Source → World × List Nat
  | [] => (w, [])
  | source :: rest =>
    let (w, id) := w.addSource engine source
    let (w, ids) := w.addSources engine rest
    (w, id :: ids)

def addMemorySource (w : World) : Option Source → World × Option Nat
  | none => (w, none)
  | some (.given id) => (w, some id)
  | some (.fresh bounds) =>
    let (w, id) := w.addMemory bounds
    (w, some id)

/-- Elements for the functions of a segment; those without code are null. -/
def makeElems (w : World) (engine owner : Nat) (env : Env) :
    List (Option Nat × Option Nat) → World × List (Option FuncRef)
  | [] => (w, [])
  | (some func, some entry) :: rest =>
    let (w, token) := w.register engine ((env.sigOf? func).getD ⟨[], none⟩)
    let (w, elems) := w.makeElems engine owner env rest
    (w, some { token, entry, owner } :: elems)
  | _ :: rest =>
    let (w, elems) := w.makeElems engine owner env rest
    (w, none :: elems)

/-- Writes elements one by one, letting go of those that they replace. -/
def writeElems (w : World) (engine table : Nat) : Nat → List (Option FuncRef) → World
  | _, [] => w
  | place, elem :: rest =>
    let old := (w.tables[table]?.bind (·.elems[place]?)).join
    let w := w.onTable table fun t => t.setElems place [elem]
    let w := old.elim w fun e => w.release engine e.token
    w.writeElems engine table (place + 1) rest

def writeElemSegments (w : World) (engine owner : Nat) (m : Module) (tables : Array Nat) :
    List (ElemSegment × Code.FuncPtrTable × Nat) → World
  | [] => w
  | (segment, ptrs, offset) :: rest =>
    let (w, elems) := w.makeElems engine owner m.env
      (segment.funcs.toList.zip ptrs.entries.toList)
    let w := w.writeElems engine (tables.getD segment.table 0) offset elems
    w.writeElemSegments engine owner m tables rest

def writeDataSegments (w : World) (memory : Option Nat) (segments : List (DataSegment × Nat)) :
    World :=
  match memory with
  | none => w
  | some id => segments.foldl (fun w (segment, offset) =>
      w.onMemory id fun m => m.setBytes offset segment.bytes.toList) w

/-- What an instance will be made of, once all checks are passed. -/
structure Plan where
  data : GlobalData
  code : ByteArray
  elems : List Nat
  offsets : List Nat

/-- The checks that come after the imports. -/
def plan (w : World) (m : Module) (tables : List Source) (memory : Option Source)
    (globals : Array Val) (data : Except Broken GlobalData) : Except Error Plan := do
  let placed : Except Broken GlobalData := do
    let data ← (← data).placeExits m.imports.toList
    let data ← data.placeTables m.env.tables.toList
    data.placeGlobals (m.env.globals.toList.zip globals.toList)
  let data ← placed.mapError .internal
  let elems ← elemOffsets w tables.toArray globals m.elems.toList
  let offsets ← dataOffsets (w.memoryBytes memory) globals m.data.toList
  let code ← m.linked.mapError .internal
  return { data, code, elems, offsets }

/-- Makes what was planned, and writes the segments. -/
def build (w : World) (m : Module) (engine : Nat) (funcs : List Nat) (tables : List Source)
    (memory : Option Source) (tokens : List Nat) (p : Plan) : World × Nat :=
  let (w, tables) := w.addSources engine tables
  let (w, memory) := w.addMemorySource memory
  let id := w.instances.size
  let made : Instance :=
    { module := m, engine, code := p.code, data := p.data, memory, tables := tables.toArray
      hosts := funcs.toArray, tokens := tokens.toArray }
  let w := { w with instances := w.instances.push made }
  let w := w.writeElemSegments engine id m tables.toArray
    (m.elems.toList.zip (m.link.funcPtrs.toList.zip p.elems))
  (w.writeDataSegments memory (m.data.toList.zip p.offsets), id)

/-- Makes an instance; its start function has not run yet. -/
def instantiate (w : World) (m : Module) (engine : Nat) (imports : Imports) :
    World × Except Error Nat :=
  if imports.funcs.length ≠ m.env.funcImports.size then
    (w, .error (.instantiation (.funcCount m.env.funcImports.size imports.funcs.length)))
  else
    match w.resolveTables engine m.env.tables.toList imports.tables with
    | (w, .error fault) => (w, .error (.instantiation fault))
    | (w, .ok tables) =>
      match w.resolveMemory m.env.memory imports.memory with
      | .error fault => (w, .error (.instantiation fault))
      | .ok memory =>
        match resolveGlobals m.env.globals.toList imports.globals #[] with
        | .error e => (w, .error e)
        | .ok globals =>
          let (w, tokens, data) := w.placeTokens engine m.env m.indirectSigs.toList
            (.zero m.env.globalDataLen) []
          match w.plan m tables memory globals data with
          | .error e => (w.releaseAll engine tokens, .error e)
          | .ok p =>
            let (w, id) := w.build m engine imports.funcs tables memory tokens p
            (w, .ok id)

end World
end Wasmill
