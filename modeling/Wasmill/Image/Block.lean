import Wasmill.Image.Codec
import Wasmill.Module

/-! The codecs of the parts of a module: fields one after another, cases by number. -/
namespace Wasmill.Image
open Code Codec

def valType : Codec ValType where
  write ty := tag.write ty.toByte
  read bytes := do
    let (byte, rest) ← tag.read bytes
    return (← ValType.ofByte? byte, rest)

def sig : Codec Sig :=
  (pair valType.list valType.option).via (fun (params, result) => ⟨params, result⟩)
    fun s => (s.params, s.result)

def bounds : Codec Bounds :=
  (pair u32 u32.option).via (fun (initial, maximum) => ⟨initial, maximum⟩)
    fun b => (b.initial, b.maximum)

def globalType : Codec GlobalType :=
  (pair valType bool).via (fun (content, mutable) => ⟨content, mutable⟩)
    fun g => (g.content, g.mutable)

def initExpr : Codec InitExpr where
  write
    | .const (.i32 v) => tag.write 0 ++ (signed 32).write v
    | .const (.i64 v) => tag.write 1 ++ (signed 64).write v
    | .const (.f32 v) => tag.write 2 ++ (word 32 8).write v
    | .const (.f64 v) => tag.write 3 ++ (word 64 8).write v
    | .const (.v128 v) => tag.write 4 ++ (word 128 16).write v
    | .globalGet index => tag.write 5 ++ u32.write index
  read bytes := do
    let (which, rest) ← tag.read bytes
    match which with
    | 0 => ((signed 32).via (.const <| .i32 ·) fun _ => 0).read rest
    | 1 => ((signed 64).via (.const <| .i64 ·) fun _ => 0).read rest
    | 2 => ((word 32 8).via (.const <| .f32 ·) fun _ => 0).read rest
    | 3 => ((word 64 8).via (.const <| .f64 ·) fun _ => 0).read rest
    | 4 => ((word 128 16).via (.const <| .v128 ·) fun _ => 0).read rest
    | 5 => (u32.via .globalGet fun _ => 0).read rest
    | _ => none

def importName : Codec ImportName :=
  (pair string string).via (fun (module, name) => ⟨module, name⟩) fun i => (i.module, i.name)

def funcImport : Codec FuncImport :=
  (pair importName (pair u32 u32)).via (fun (source, sig, record) => ⟨source, sig, record⟩)
    fun f => (f.source, f.sig, f.record)

def tableDesc : Codec TableDesc :=
  (pair bounds (pair importName.option u32)).via
    (fun (bounds, source, handle) => ⟨bounds, source, handle⟩)
    fun t => (t.bounds, t.source, t.handle)

def memoryDesc : Codec MemoryDesc :=
  (pair bounds importName.option).via (fun (bounds, source) => ⟨bounds, source⟩)
    fun m => (m.bounds, m.source)

def globalInit : Codec GlobalInit where
  write
    | .const init => tag.write 0 ++ initExpr.write init
    | .imported source => tag.write 1 ++ importName.write source
  read bytes := do
    let (which, rest) ← tag.read bytes
    match which with
    | 0 => (initExpr.read rest).map fun (init, rest) => (.const init, rest)
    | 1 => (importName.read rest).map fun (source, rest) => (.imported source, rest)
    | _ => none

def globalDesc : Codec GlobalDesc :=
  (pair globalType (pair globalInit u32)).via (fun (ty, init, place) => ⟨ty, init, place⟩)
    fun g => (g.ty, g.init, g.place)

/-- Written as a list of which the first is the place of signatures that are not listed; further
ones are left out where they equal it, at the end altogether. -/
def tokenPlaces : Codec TokenPlaces where
  write p :=
    let listed := (p.listed.toList.reverse.dropWhile (· = p.others)).reverse
    let shorter := listed.map fun place => if place = p.others then none else some place
    u32.option.list.write (some p.others :: shorter)
  read bytes := do
    match ← u32.option.list.read bytes with
    | (some others :: listed, rest) =>
      return ({ others, listed := (listed.map (·.getD others)).toArray }, rest)
    | _ => none

def interruptMode : Codec InterruptMode where
  write
    | .polling => tag.write 0
    | .signal => tag.write 1
  read bytes := do
    let (which, rest) ← tag.read bytes
    match which with
    | 0 => return (.polling, rest)
    | 1 => return (.signal, rest)
    | _ => none

def limits : Codec Limits where
  write l := [l.types, l.funcs, l.imports, l.exports, l.globals, l.dataSegments, l.elemSegments,
    l.tableElems, l.memoryPages, l.params, l.locals, l.functionSize].flatMap u32.write
  read bytes := do
    let (fields, rest) ← readMany u32 12 bytes
    match fields with
    | [types, funcs, imports, exports, globals, dataSegments, elemSegments, tableElems,
        memoryPages, params, locals, functionSize] =>
      return (
        { types, funcs, imports, exports, globals, dataSegments, elemSegments, tableElems,
          memoryPages, params, locals, functionSize }, rest)
    | _ => none

def env : Codec Env where
  write e :=
    sig.array.write e.sigs ++ u32.array.write e.funcs ++ funcImport.array.write e.funcImports
      ++ tableDesc.array.write e.tables ++ memoryDesc.option.write e.memory
      ++ globalDesc.array.write e.globals ++ tokenPlaces.write e.sigTokens
      ++ u32.write e.globalDataLen ++ interruptMode.write e.interruptMode ++ limits.write e.limits
  read bytes := do
    let (sigs, rest) ← sig.array.read bytes
    let (funcs, rest) ← u32.array.read rest
    let (funcImports, rest) ← funcImport.array.read rest
    let (tables, rest) ← tableDesc.array.read rest
    let (memory, rest) ← memoryDesc.option.read rest
    let (globals, rest) ← globalDesc.array.read rest
    let (sigTokens, rest) ← tokenPlaces.read rest
    let (globalDataLen, rest) ← u32.read rest
    let (interruptMode, rest) ← interruptMode.read rest
    let (limits, rest) ← limits.read rest
    return (
      { sigs, funcs, funcImports, tables, memory, globals, sigTokens, globalDataLen, interruptMode,
        limits }, rest)

def rangeKind : Codec RangeKind where
  write
    | .function func bytecode entry =>
      tag.write 0 ++ u32.write func ++ u32.write bytecode ++ u32.write entry
    | .entry index => tag.write 1 ++ u32.write index
    | .interpExit index => tag.write 2 ++ u32.write index
    | .jitExit index => tag.write 3 ++ u32.write index
    | .errorExit => tag.write 4
    | .inline => tag.write 5
    | .callThunk target => tag.write 6 ++ u32.write target
  read bytes := do
    let (which, rest) ← tag.read bytes
    match which with
    | 0 =>
      let (func, rest) ← u32.read rest
      let (bytecode, rest) ← u32.read rest
      let (entry, rest) ← u32.read rest
      return (.function func bytecode entry, rest)
    | 1 => (u32.read rest).map fun (index, rest) => (.entry index, rest)
    | 2 => (u32.read rest).map fun (index, rest) => (.interpExit index, rest)
    | 3 => (u32.read rest).map fun (index, rest) => (.jitExit index, rest)
    | 4 => return (.errorExit, rest)
    | 5 => return (.inline, rest)
    | 6 => (u32.read rest).map fun (target, rest) => (.callThunk target, rest)
    | _ => none

def range : Codec Range :=
  (pair rangeKind (pair u32 u32)).via (fun (kind, start, stop) => ⟨kind, start, stop⟩)
    fun r => (r.kind, r.start, r.stop)

def site : Codec Site :=
  (pair u32 u32).via (fun (code, bytecode) => ⟨code, bytecode⟩) fun s => (s.code, s.bytecode)

def callSite : Codec CallSiteDesc :=
  (pair u32 u32).via (fun (returnsTo, bytecode) => ⟨returnsTo, bytecode⟩)
    fun s => (s.returnsTo, s.bytecode)

def elemSegment : Codec ElemSegment :=
  (pair u32 (pair initExpr u32.option.array)).via
    (fun (table, offset, funcs) => ⟨table, offset, funcs⟩)
    fun s => (s.table, s.offset, s.funcs)

def stubs : Codec StubOffsets :=
  (pair u32 (pair u32 (pair u32 u32))).via
    (fun (outOfBounds, interrupt, stackOverflow, throw) =>
      ⟨outOfBounds, interrupt, stackOverflow, throw⟩)
    fun s => (s.outOfBounds, s.interrupt, s.stackOverflow, s.throw)

/-- What the first block holds; the other blocks fill in the rest of the module. -/
def metadata : Codec Module where
  write m :=
    env.write m.env ++ range.array.write m.ranges ++ site.array.write m.trapSites
      ++ callSite.array.write m.callSites ++ u32.option.write m.start
      ++ u32.option.write m.startEntry ++ elemSegment.array.write m.elems ++ stubs.write m.stubs
      ++ u32.array.write m.indirectSigs ++ string.option.write m.name
      ++ (pair u32 string).array.write m.funcNames
  read bytes := do
    let (env, rest) ← env.read bytes
    let (ranges, rest) ← range.array.read rest
    let (trapSites, rest) ← site.array.read rest
    let (callSites, rest) ← callSite.array.read rest
    let (start, rest) ← u32.option.read rest
    let (startEntry, rest) ← u32.option.read rest
    let (elems, rest) ← elemSegment.array.read rest
    let (stubs, rest) ← stubs.read rest
    let (indirectSigs, rest) ← u32.array.read rest
    let (name, rest) ← string.option.read rest
    let (funcNames, rest) ← (pair u32 string).array.read rest
    return (
      { env, ranges, trapSites, callSites, start, startEntry, elems, stubs, indirectSigs, name,
        funcNames, code := ByteArray.empty, link := {}, imports := #[], exports := {}, data := #[],
        bytecode := none }, rest)

def internalLink : Codec InternalLink :=
  (pair u32 u32).via (fun (patchAt, target) => ⟨patchAt, target⟩) fun l => (l.patchAt, l.target)

def funcPtrTable : Codec FuncPtrTable :=
  (pair u32 (pair u32 u32.option.array)).via
    (fun (table, handle, entries) => ⟨table, handle, entries⟩)
    fun t => (t.table, t.handle, t.entries)

def linkData : Codec LinkData :=
  (pair internalLink.array (pair u32.array.array funcPtrTable.array)).via
    (fun (internal, symbolic, funcPtrs) => ⟨internal, symbolic, funcPtrs⟩)
    fun l => (l.internal, l.symbolic, l.funcPtrs)

def funcExit : Codec Import :=
  (pair importName (pair (pair u32 u32) (pair u32 u32))).via
    (fun (source, (sig, record), interpExit, jitExit) =>
      { source, sig, record, interpExit, jitExit })
    fun i => (i.source, (i.sig, i.record), i.interpExit, i.jitExit)

def «export» : Codec Export :=
  (pair u32 (pair u32 u32)).via (fun (func, sig, entry) => ⟨func, sig, entry⟩)
    fun e => (e.func, e.sig, e.entry)

def exportItem : Codec ExportItem where
  write
    | .function index => tag.write 0 ++ u32.write index
    | .table index => tag.write 1 ++ u32.write index
    | .memory => tag.write 2
    | .global index => tag.write 3 ++ u32.write index
  read bytes := do
    let (which, rest) ← tag.read bytes
    match which with
    | 0 => (u32.read rest).map fun (index, rest) => (.function index, rest)
    | 1 => (u32.read rest).map fun (index, rest) => (.table index, rest)
    | 2 => return (.memory, rest)
    | 3 => (u32.read rest).map fun (index, rest) => (.global index, rest)
    | _ => none

def exports : Codec Exports :=
  (pair «export».array (pair string exportItem).array).via (fun (funcs, names) => ⟨funcs, names⟩)
    fun e => (e.funcs, e.names)

def dataSegment : Codec DataSegment :=
  (pair initExpr bytes).via (fun (offset, content) => ⟨offset, content⟩) fun s =>
    (s.offset, s.bytes)

end Wasmill.Image
