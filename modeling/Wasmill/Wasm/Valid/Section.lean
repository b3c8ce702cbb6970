import Wasmill.Wasm.Valid.Const
import Wasmill.Wasm.Valid.Group

/-! Checking sections, in their order. -/
namespace Wasmill.Wasm
namespace Context

/-- Sections other than custom ones come at most once and in order, here by their places. -/
def enterSection (ctx : Context) (place : Nat) : Except Error Context := do
  require (ctx.order < place) "section out of order"
  return { ctx with order := place }

def boundsOk (b : SizeBounds) (most : Nat) : Bool :=
  b.initial ≤ most && b.maximum.all fun m => b.initial ≤ m && m ≤ most

def tableOk (ctx : Context) (t : TableType) : Bool :=
  ctx.refOk t.element && !t.bounds.shared
    && boundsOk t.bounds (if t.bounds.wide then 0xffffffffffffffff else 0xffffffff)

/-- Shared memories have a maximum; the size of pages cannot be chosen. -/
def memoryOk (m : MemoryType) : Bool :=
  m.pageSizeLog2.isNone && boundsOk m.bounds (if m.bounds.wide then 0x1000000000000 else 0x10000)
    && (!m.bounds.shared || m.bounds.maximum.isSome)

def contentOk (ctx : Context) (g : ContentType) : Bool := ctx.tyOk g.content && !g.shared

/-- Tags are functions without results. -/
def tagOk (ctx : Context) (ty : Nat) : Bool := (ctx.funcType? ty).any (·.results.isEmpty)

def checkTypes (ctx : Context) (groups : Array (List SubType)) : Except Error Context :=
  groups.foldlM addGroup ctx

/-- How much a function type adds to the size of the interface; all else adds one. -/
def funcSize (ctx : Context) (ty : Nat) : Nat :=
  match ctx.funcType? ty with
  | some f => 2 + f.params.length + f.results.length
  | none => 1

/-- Makes the interface larger, up to a limit. -/
def enlarge (ctx : Context) (size : Nat) : Except Error Context := do
  let interfaceSize := ctx.interfaceSize + size
  require (interfaceSize < 1000000) "effective type size exceeds the limit"
  return { ctx with interfaceSize }

def importSize (ctx : Context) : ImportType → Nat
  | .func ty | .tag ty => ctx.funcSize ty
  | _ => 1

def exportSize (ctx : Context) (entry : ExportEntry) : Nat :=
  match entry.kind with
  | .func => (ctx.funcs[entry.index]?).elim 1 ctx.funcSize
  | .tag => (ctx.tags[entry.index]?).elim 1 ctx.funcSize
  | _ => 1

def checkImport (ctx : Context) (entry : ImportEntry) : Except Error Context := do
  let ctx ← ctx.enlarge (ctx.importSize entry.ty)
  match entry.ty with
  | .func ty =>
    require (ctx.funcType? ty).isSome "unknown type"
    return { ctx with funcs := ctx.funcs.push ty }
  | .table ty =>
    require (ctx.tableOk ty && ctx.tables.size < 100) "invalid table import"
    return { ctx with tables := ctx.tables.push ty }
  | .memory ty =>
    require (memoryOk ty && ctx.memories.size < 100) "invalid memory import"
    return { ctx with memories := ctx.memories.push ty }
  | .global ty =>
    require (ctx.contentOk ty) "invalid global import"
    return { ctx with globals := ctx.globals.push ty }
  | .tag ty =>
    require (ctx.tagOk ty) "invalid tag import"
    return { ctx with tags := ctx.tags.push ty }

def checkImports (ctx : Context) (entries : Array ImportEntry) : Except Error Context := do
  require (entries.size ≤ 1000000) "too many imports"
  entries.foldlM checkImport ctx

def checkFuncs (ctx : Context) (types : Array Nat) : Except Error Context := do
  require (ctx.funcs.size + types.size ≤ 1000000) "too many functions"
  require (types.all fun ty => (ctx.funcType? ty).isSome) "unknown type"
  return { ctx with funcs := ctx.funcs ++ types, bodies := some types.size }

def checkTable (ctx : Context) (entry : TableEntry) : Except Error Context := do
  require (ctx.tableOk entry.ty && ctx.tables.size < 100) "invalid table"
  let ctx ←
    match entry.init with
    | some init => ctx.checkConst (.ref entry.ty.element) init
    | none => do
      require entry.ty.element.nullable "non-defaultable element type must have initializer"
      pure ctx
  return { ctx with tables := ctx.tables.push entry.ty }

def checkTables (ctx : Context) (entries : Array TableEntry) : Except Error Context :=
  entries.foldlM checkTable ctx

def checkMemories (ctx : Context) (types : Array MemoryType) : Except Error Context := do
  require (ctx.memories.size + types.size ≤ 100) "too many memories"
  require (types.all memoryOk) "invalid memory"
  return { ctx with memories := ctx.memories ++ types }

def checkTags (ctx : Context) (types : Array Nat) : Except Error Context := do
  require (ctx.tags.size + types.size ≤ 1000000) "too many tags"
  require (types.all ctx.tagOk) "invalid tag"
  return { ctx with tags := ctx.tags ++ types }

def checkGlobal (ctx : Context) (entry : GlobalEntry) : Except Error Context := do
  require (ctx.contentOk entry.ty) "invalid global type"
  let ctx ← ctx.checkConst entry.ty.content entry.init
  return { ctx with globals := ctx.globals.push entry.ty }

def checkGlobals (ctx : Context) (entries : Array GlobalEntry) : Except Error Context := do
  require (ctx.globals.size + entries.size ≤ 1000000) "too many globals"
  entries.foldlM checkGlobal ctx

def checkExport (ctx : Context) (entry : ExportEntry) : Except Error Context := do
  require (!ctx.exportNames.contains entry.name) "duplicate export name"
  let ctx := { ctx with exportNames := entry.name :: ctx.exportNames }
  let known :=
    match entry.kind with
    | .func => entry.index < ctx.funcs.size
    | .table => entry.index < ctx.tables.size
    | .memory => entry.index < ctx.memories.size
    | .global => entry.index < ctx.globals.size
    | .tag => entry.index < ctx.tags.size
  require known "export of an unknown index"
  let ctx ← ctx.enlarge (ctx.exportSize entry)
  return if entry.kind = .func then ctx.addReferable entry.index else ctx

def checkExports (ctx : Context) (entries : Array ExportEntry) : Except Error Context := do
  require (entries.size ≤ 1000000) "too many exports"
  entries.foldlM checkExport ctx

def checkStart (ctx : Context) (func : Nat) : Except Error Context := do
  require ((ctx.typeOfFunc? func).any fun ty => ty.params.isEmpty && ty.results.isEmpty)
    "invalid start function type"
  return ctx

def checkItems (ctx : Context) : ElemItems → Except Error Context
  | .funcs indices => do
    require (indices.size ≤ 10000000) "number of elements is out of bounds"
    require (indices.all (· < ctx.funcs.size)) "unknown function"
    return { ctx with referable := indices.toList ++ ctx.referable }
  | .exprs ty exprs => do
    require (exprs.size ≤ 10000000) "number of elements is out of bounds"
    exprs.foldlM (fun ctx expr => ctx.checkConst (.ref ty) expr) ctx

def itemsTy : ElemItems → RefType
  | .funcs _ => ⟨false, .abstract false .func⟩
  | .exprs ty _ => ty

def checkElem (ctx : Context) (entry : ElemEntry) : Except Error Context := do
  let ty := itemsTy entry.items
  require (ctx.refOk ty) "unknown type"
  let ctx ←
    match entry.mode with
    | .inactive => pure ctx
    | .active table offset =>
      match ctx.tables[table]? with
      | none => rejectAt 0 "unknown table"
      | some t => do
        require (ctx.refSub ty t.element) "type mismatch: invalid element type"
        ctx.checkConst (.num (Check.indexTy t.bounds.wide)) offset
  let ctx ← ctx.checkItems entry.items
  return { ctx with elems := ctx.elems.push ty }

def checkElems (ctx : Context) (entries : Array ElemEntry) : Except Error Context := do
  require (entries.size ≤ 100000) "too many element segments"
  entries.foldlM checkElem ctx

def checkDataCount (ctx : Context) (count : Nat) : Except Error Context := do
  require (count ≤ 100000) "data count section specifies too many data segments"
  return { ctx with dataCount := some count }

def checkData (ctx : Context) (entry : DataEntry) : Except Error Context := do
  match entry.mode with
  | .inactive => return ctx
  | .active memory offset =>
    match ctx.memories[memory]? with
    | none => rejectAt 0 "unknown memory"
    | some m => ctx.checkConst (.num (Check.indexTy m.bounds.wide)) offset

def checkDatas (ctx : Context) (entries : Array DataEntry) : Except Error Context := do
  require (entries.size ≤ 100000) "too many data segments"
  let ctx ← entries.foldlM checkData ctx
  return { ctx with dataSegments := entries.size }

/-- The bodies are as many as the functions. -/
def checkCode (ctx : Context) (count : Nat) : Except Error Context := do
  require (ctx.bodies.getD 0 = count) "function and code section have inconsistent lengths"
  return { ctx with bodies := none }

/-- Nothing that was announced is missing. -/
def checkEnd (ctx : Context) : Except Error Unit := do
  require (ctx.dataCount.all (· = ctx.dataSegments)) "data count and data section differ"
  require (ctx.bodies.getD 0 = 0) "function and code sections have inconsistent lengths"

end Context
end Wasmill.Wasm
