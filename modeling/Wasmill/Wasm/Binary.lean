import Wasmill.Generator
import Wasmill.Wasm.Names
import Wasmill.Wasm.Valid.Section

/-! Binary modules.

A module is a header and sections. Each section is read and checked as a whole before anything in it
is declared; bodies are checked and compiled one by one. What is valid may still be refused then,
because it cannot be compiled. -/
namespace Wasmill.Wasm

/-! ### What can be compiled -/

def bound32 (what : String) (value : Nat) : Except Error Nat :=
  if value < UInt32.size then .ok value else .error (.unsupported (.wideBound what value))

def SizeBounds.compiled (what : String) (b : SizeBounds) : Except Error Bounds := do
  let initial ← bound32 what b.initial
  return { initial, maximum := ← b.maximum.mapM (bound32 what) }

def TableType.compiled (t : TableType) : Except Error Bounds := do
  if t.bounds.wide || t.bounds.shared then throw (.unsupported .wideOrSharedTables)
  if t.element ≠ .funcref then throw (.unsupported (.tablesOf t.element.text))
  t.bounds.compiled "table size"

def MemoryType.compiled (m : MemoryType) : Except Error Bounds := do
  if m.bounds.wide then throw (.unsupported .memory64)
  if m.bounds.shared then throw (.unsupported .sharedMemory)
  if m.pageSizeLog2.isSome then throw (.unsupported .customPageSizes)
  m.bounds.compiled "memory size"

def ContentType.compiled (g : ContentType) : Except Error GlobalType := do
  if g.shared then throw (.unsupported .sharedGlobals)
  return ⟨← g.content.compiled, g.mutable⟩

def SubType.compiled (ty : SubType) : Except Error Sig :=
  match ty.body with
  | .func ty => ty.compiled
  | _ => .error (.unsupported .gcTypes)

/-- A single constant or global. -/
def ConstExpr.init (e : ConstExpr) : Except Error InitExpr :=
  match e.ops with
  | [(.const v, _)] => .ok (.const v)
  | [(.globalGet index, _)] => .ok (.globalGet index)
  | [(_, offset)] => .error (.unsupported (.constOpcode offset))
  | _ => .error (.unsupported .extendedConst)

/-- A single function or none. -/
def ConstExpr.func (e : ConstExpr) : Except Error (Option Nat) :=
  match e.ops with
  | [(.extra _ (.refFunc func), _)] => .ok (some func)
  | [(.extra _ (.refNull _), _)] => .ok none
  | _ => .error (.unsupported .elemExpr)

def ElemItems.compiled : ElemItems → Except Error (Array (Option Nat))
  | .funcs indices => .ok (indices.map some)
  | .exprs _ items => items.mapM ConstExpr.func

def ElemEntry.compiled (entry : ElemEntry) : Except Error ElemSegment :=
  match entry.mode with
  | .inactive => .error (.unsupported .inactiveElems)
  | .active table offset => do
    let funcs ← entry.items.compiled
    return { table, offset := ← offset.init, funcs }

def DataEntry.compiled (entry : DataEntry) : Except Error DataSegment :=
  match entry.mode with
  | .active 0 offset => do return { offset := ← offset.init, bytes := entry.bytes }
  | _ => .error (.unsupported .inactiveData)

def ExportEntry.entity (entry : ExportEntry) : Except Error Generator.Entity :=
  match entry.kind with
  | .func => .ok (.function entry.index)
  | .table => .ok (.table entry.index)
  | .memory => .ok .memory
  | .global => .ok (.global entry.index)
  | .tag => .error (.unsupported .exceptions)

/-! ### Declaring sections -/

namespace Binary

def declareImport (entry : ImportEntry) (g : Generator) : Except Error Generator := do
  let source : ImportName := ⟨entry.module, entry.name⟩
  match entry.ty with
  | .func ty => return (← g.declareFuncImport source ty).2
  | .table ty => return (← g.declareTable (← ty.compiled) (some source)).2
  | .memory ty => g.declareMemory (← ty.compiled) (some source)
  | .global ty => return (← g.declareGlobalImport source (← ty.compiled)).2
  | .tag _ => throw (.unsupported .exceptions)

def declareTable (entry : TableEntry) (g : Generator) : Except Error Generator := do
  if entry.init.isSome then throw (.unsupported .tableInit)
  return (← g.declareTable (← entry.ty.compiled) none).2

def declareGlobal (entry : GlobalEntry) (g : Generator) : Except Error Generator := do
  let init ← entry.init.init
  return (← g.declareGlobal (← entry.ty.compiled) init).2

def declareExport (entry : ExportEntry) (g : Generator) : Except Error Generator := do
  g.declareExport entry.name (← entry.entity)

/-- Checks the items of a section and then declares them in order. -/
def declareItems (item : Read α) (check : Context → Array α → Except Error Context)
    (declare : α → Generator → Except Error Generator) (ctx : Context) (content : Cursor) :
    Gen Context := do
  let items ← readItems item content
  let ctx ← check ctx items
  items.toList.forM fun x => Gen.declare (declare x)
  return ctx

def declareNames (names : Names) : Gen Unit :=
  modify fun g =>
    let g := names.module.elim g g.declareName
    names.funcs.foldl (fun g (func, name) => g.declareFuncName func name) g

def custom (content : Cursor) : Gen Unit := do
  match Read.string content with
  | (.ok name, rest) => if name = "name" then declareNames (Names.read rest)
  | (.error e, _) => throw e

/-- A section other than the code. -/
def «section» (id : Nat) (ctx : Context) (content : Cursor) : Gen Context := do
  match id with
  | 0 =>
    custom content
    return ctx
  | 1 =>
    let declareGroup (group : List SubType) (g : Generator) : Except Error Generator :=
      group.foldlM (fun g ty => do return (← g.declareSig (← ty.compiled)).2) g
    declareItems SubType.readGroup Context.checkTypes declareGroup (← ctx.enterSection 1) content
  | 2 =>
    declareItems ImportEntry.read Context.checkImports declareImport (← ctx.enterSection 2) content
  | 3 =>
    let declareFunc (ty : Nat) (g : Generator) : Except Error Generator :=
      return (← g.declareFunc ty).2
    declareItems Read.u32 Context.checkFuncs declareFunc (← ctx.enterSection 3) content
  | 4 =>
    declareItems TableEntry.read Context.checkTables declareTable (← ctx.enterSection 4) content
  | 5 =>
    let declareMemory (ty : MemoryType) (g : Generator) : Except Error Generator := do
      g.declareMemory (← ty.compiled) none
    declareItems MemoryType.read Context.checkMemories declareMemory (← ctx.enterSection 5) content
  | 13 =>
    let _ ← (← ctx.enterSection 6).checkTags (← readItems readTag content)
    throw (.unsupported .exceptions)
  | 6 =>
    declareItems GlobalEntry.read Context.checkGlobals declareGlobal (← ctx.enterSection 7) content
  | 7 =>
    declareItems ExportEntry.read Context.checkExports declareExport (← ctx.enterSection 8) content
  | 8 =>
    let func ← readNumber content
    let ctx ← (← ctx.enterSection 9).checkStart func
    Gen.declare (·.declareStart func)
    return ctx
  | 9 =>
    let declareElem (entry : ElemEntry) (g : Generator) : Except Error Generator := do
      g.declareElems (← entry.compiled)
    declareItems ElemEntry.read Context.checkElems declareElem (← ctx.enterSection 10) content
  | 12 => (← ctx.enterSection 11).checkDataCount (← readNumber content)
  | 11 =>
    let declareData (entry : DataEntry) (g : Generator) : Except Error Generator := do
      g.declareData (← entry.compiled)
    declareItems DataEntry.read Context.checkDatas declareData (← ctx.enterSection 13) content
  | _ => return ctx

/-- Bodies, each checked and compiled before the next is read. Answers what is left of the section.
-/
def bodies (ctx : Context) : (count func : Nat) → Cursor → Gen Cursor
  | 0, _, c => return c
  | count + 1, func, c => do
    match Read.sized c with
    | (.error e, _) => throw e
    | (.ok body, c) =>
      ctx.checkBody ((ctx.typeOfFunc? func).getD ⟨[], []⟩) body
      Gen.define func body.rest body.offset
      bodies ctx count (func + 1) c

/-- The code section, of `size` bytes. Only what is read of it has to be there. -/
def codeSection (ctx : Context) (size : Nat) (c : Cursor) : Gen (Context × Cursor) := do
  let content := { c with stop := min c.stop (c.pos + size) }
  match Read.u32 content with
  | (.error e, _) => throw e
  | (.ok count, content) =>
    let ctx ← (← ctx.enterSection 12).checkCode count
    Gen.startDefs
    let rest ← bodies ctx count (ctx.funcs.size - count) content
    if rest.pos = c.pos + size then return (ctx, { c with pos := rest.pos })
    else rejectAt rest.offset "trailing bytes at end of section"

/-- Sections up to the end, at most as many as asked for. -/
def sections : Nat → Context → Cursor → Gen Context
  | 0, ctx, _ => return ctx
  | fuel + 1, ctx, c => do
    if c.atEnd then return ctx
    else
      let head : Read (Nat × Nat) := do
        let id ← Read.byte
        if id ≥ 128 then Read.reject "invalid u7"
        else return (id, ← Read.u32)
      match head c with
      | (.error e, _) => throw e
      | (.ok (id, size), c) =>
        if id = 10 then
          let (ctx, c) ← codeSection ctx size c
          sections fuel ctx c
        else
          match Read.window size c with
          | (.error e, _) => throw e
          | (.ok content, c) =>
            let ctx ← «section» id ctx content
            sections fuel ctx c

/-- What every module starts with. -/
def header : List UInt8 := [0x00, 0x61, 0x73, 0x6d, 0x01, 0x00, 0x00, 0x00]

def module (bytes : ByteArray) : Gen Module := do
  require ((bytes.extract 0 8).toList == header) "bad magic number or version"
  let ctx ← sections (bytes.size + 1) {} { Cursor.ofBytes bytes 0 with pos := 8 }
  ctx.checkEnd
  Gen.startDefs
  Gen.finishDefs
  modify (·.setBytecode bytes)
  Gen.finish

end Binary
end Wasmill.Wasm

namespace Wasmill

/-- Compiles a binary module. The generator tells which functions were compiled, also on failure. -/
def Module.ofBytes (config : Config) (bytes : ByteArray) : Except Error Module × Generator :=
  Wasm.Binary.module bytes (Generator.new config)

end Wasmill
