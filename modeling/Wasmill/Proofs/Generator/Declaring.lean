import Wasmill.Generator
import Wasmill.Proofs.Steps

/-! What a declaration does.

There are fourteen declarations. What each of them checks, and what it adds once it is accepted, is
said here as a relation; whatever holds of all that is declared is then proved by cases on it. -/
namespace Wasmill
open Code Steps Option Array
variable {α : Type}

/-- The bounds keep to a limit. -/
def Bounds.Within (b : Bounds) (most : Nat) : Prop :=
  b.initial ≤ most ∧ ∀ n, b.maximum = some n → n ≤ most

theorem Bounds.within_of_not {b : Bounds} {most : Nat}
    (ok : ¬ (b.initial > most ∨ b.maximum.any (· > most))) : b.Within most := by
  obtain ⟨initial, maximum⟩ := not_or.1 ok
  refine ⟨Nat.le_of_not_lt initial, fun n is => ?_⟩
  rw [is] at maximum
  simpa using maximum

/-- The initial value is of a type; a global that it names is declared. -/
def GlobalInit.Typed (env : Env) (ty : ValType) : GlobalInit → Prop
  | .imported _ => True
  | .const (.const v) => v.ty = ty
  | .const (.globalGet index) => ∃ desc, env.globals[index]? = some desc ∧ desc.ty.content = ty

namespace Generator

/-- What can be declared. -/
inductive Declaration
  | sig (sig : Sig)
  | funcImport (source : ImportName) (sig : Nat)
  | table (bounds : Bounds) (source : Option ImportName)
  | memory (bounds : Bounds) (source : Option ImportName)
  | globalImport (source : ImportName) (ty : GlobalType)
  | global (ty : GlobalType) (init : InitExpr)
  | func (sig : Nat)
  | export (name : String) (entity : Entity)
  | start (func : Nat)
  | elems (segment : ElemSegment)
  | data (segment : DataSegment)
  | name (text : String)
  | funcName (func : Nat) (text : String)
  | bytecode (bytes : ByteArray)

/-- The generator with the declaration, if it is accepted. -/
def declared (g : Generator) : Declaration → Except Error Generator
  | .sig sig => (g.declareSig sig).map (·.2)
  | .funcImport source sig => (g.declareFuncImport source sig).map (·.2)
  | .table bounds source => (g.declareTable bounds source).map (·.2)
  | .memory bounds source => g.declareMemory bounds source
  | .globalImport source ty => (g.declareGlobalImport source ty).map (·.2)
  | .global ty init => (g.declareGlobal ty init).map (·.2)
  | .func sig => (g.declareFunc sig).map (·.2)
  | .export name entity => g.declareExport name entity
  | .start func => g.declareStart func
  | .elems segment => g.declareElems segment
  | .data segment => g.declareData segment
  | .name text => .ok (g.declareName text)
  | .funcName func text => .ok (g.declareFuncName func text)
  | .bytecode bytes => .ok (g.setBytecode bytes)

/-- The global that a declaration is of, and how many imports it takes. -/
def Declaration.global? : Declaration → Option (GlobalType × GlobalInit × Nat)
  | .globalImport source ty => some (ty, .imported source, 1)
  | .global ty init => some (ty, .const init, 0)
  | _ => none

end Generator

namespace Env
variable {align : Nat}

/-- There is room at a place for so many bytes, behind everything else and at a multiple of `align`.
-/
structure Room (env : Env) (place size align : Nat) : Prop where
  low : env.globalDataLen ≤ place
  aligned : align ∣ place
  small : place + size < UInt32.size

/-- A declaration adds to the environment. The numbers count the imports before and after it. -/
inductive Adds (env : Env) (count : Nat) : Generator.Declaration → Env → Nat → Prop
  | sig {sig : Sig} {place : Nat} (few : env.sigs.size < env.limits.types)
      (params : sig.params.length ≤ env.limits.params)
      (room : env.Room place sigTokenSize sigTokenSize) :
    Adds env count (.sig sig) { env with
      sigs := env.sigs.push sig, sigTokens := env.sigTokens.push place, globalDataLen :=
  place + sigTokenSize } count
  | funcImport {source : ImportName} {sig record : Nat} (few : count < env.limits.imports)
      (known : sig < env.sigs.size)
      (first : env.funcs.size = env.funcImports.size) (room : env.Room record exitRecordSize 8) :
    Adds env count (.funcImport source sig) { env with
      funcImports := env.funcImports.push { source, sig, record }, funcs := env.funcs.push sig
      globalDataLen := record + exitRecordSize } (count + 1)
  | table {bounds : Bounds} {source : Option ImportName} {handle : Nat}
      (few : source.isSome → count < env.limits.imports)
      (within : bounds.Within env.limits.tableElems) (room : env.Room handle tableHandleSize 8) :
    Adds env count (.table bounds source) { env with
      tables := env.tables.push { bounds, source, handle }, globalDataLen :=
  handle + tableHandleSize }
      (count + Generator.imported source)
  | memory {bounds : Bounds} {source : Option ImportName} (first : env.memory = none)
      (few : source.isSome → count < env.limits.imports)
      (within : bounds.Within env.limits.memoryPages) :
    Adds env count (.memory bounds source) { env with memory := some { bounds, source } }
      (count + Generator.imported source)
  | global {d : Generator.Declaration} {ty : GlobalType} {init : GlobalInit} {more place : Nat}
      (is : d.global? = some (ty, init, more))
      (imports : 0 < more → count < env.limits.imports) (typed : init.Typed env ty.content)
      (few : env.globals.size < env.limits.globals)
      (room : env.Room place ty.content.byteSize ty.content.byteSize) :
    Adds env count d { env with
      globals := env.globals.push { ty, init, place }, globalDataLen :=
  place + ty.content.byteSize } (count + more)
  | func {sig : Nat} (few : env.funcs.size < env.limits.funcs) (known : sig < env.sigs.size) :
    Adds env count (.func sig) { env with funcs := env.funcs.push sig } count

theorem le_alignUp (n : Nat) (some' : 0 < align) : n ≤ alignUp n align := by
  unfold alignUp
  have split := Nat.div_add_mod (n + align - 1) align
  have rest := Nat.mod_lt (n + align - 1) some'
  rw [Nat.mul_comm] at split
  omega

theorem reserve_ok {env : Env} {size : Nat} {f : Nat × Env → Except Error α} {a : α}
    (some' : 0 < align)
    (h : (env.reserve size align >>= f) = .ok a) :
    ∃ place, env.Room place size align ∧ f (place,
      { env with globalDataLen := place + size }) = .ok a := by
  obtain ⟨_, reserved, h⟩ := except_ok h
  unfold reserve at reserved
  dsimp only at reserved
  split at reserved
  rotate_left
  · cases reserved
  split at reserved <;> cases reserved
  exact ⟨_, ⟨le_alignUp _ some', Nat.dvd_mul_left _ _, ‹_›⟩, h⟩

end Env

namespace Generator
variable {g g' : Generator}

/-- What an export is listed as. A function that is exported already is not listed again. -/
inductive ListsExport (g : Generator) : Entity → ExportItem → Exports → Prop
  | again {func sig index : Nat} {e : Export} (known : g.env.funcs[func]? = some sig)
      (listed : g.exports.funcs[index]? = some e)
      (same : e.func = func) : ListsExport g (.function func) (.function index) g.exports
  | function {func sig : Nat} (known : g.env.funcs[func]? = some sig) :
    ListsExport g (.function func) (.function g.exports.funcs.size)
      { g.exports with funcs := g.exports.funcs.push ⟨func, sig, unlinked⟩ }
  | table {index : Nat} (known : index < g.env.tables.size) :
      ListsExport g (.table index) (.table index) g.exports
  | memory (known : g.env.memory.isSome) : ListsExport g .memory .memory g.exports
  | global {index : Nat} (known : index < g.env.globals.size) :
      ListsExport g (.global index) (.global index) g.exports

/-- A declaration is accepted, and what it makes of the generator. -/
inductive Accepts (g : Generator) : Declaration → Generator → Prop
  | adds {d : Declaration} {env : Env} {importCount : Nat} (opened : g.frozen = false)
      (adds : g.env.Adds g.importCount d env importCount) : Accepts g d { g with env, importCount }
  | export {name : String} {entity : Entity} {item : ExportItem} {exports : Exports}
      (unfinished : g.stubs = none)
      (few : g.exports.names.size < g.env.limits.exports) (new : g.exports.find? name = none)
      (lists : g.ListsExport entity item exports) :
    Accepts g (.export name entity)
      { g with exports := { exports with names := exports.names.push (name, item) } }
  | start {func : Nat} (known : g.env.sigOf? func = some ⟨[], none⟩) :
      Accepts g (.start func) { g with start := some func }
  | elems {segment : ElemSegment} (unfinished : g.stubs = none)
      (few : g.elems.size < g.env.limits.elemSegments)
      (short : segment.funcs.size ≤ g.env.limits.tableElems)
      (table : segment.table < g.env.tables.size)
      (funcs : ∀ func, some func ∈ segment.funcs.toList → func < g.env.funcs.size) :
    Accepts g (.elems segment) { g with elems := g.elems.push segment }
  | data {segment : DataSegment} (few : g.data.size < g.env.limits.dataSegments)
      (memory : g.env.memory.isSome) :
    Accepts g (.data segment) { g with data := g.data.push segment }
  | name (text : String) : Accepts g (.name text) { g with name := some text }
  | funcName (func : Nat) (text : String) :
      Accepts g (.funcName func text) { g with funcNames := g.funcNames.push (func, text) }
  | bytecode {bytes : ByteArray} (bytecode : Option ByteArray)
      (is : bytecode = if g.config.retainBytecode then some bytes else g.bytecode) :
    Accepts g (.bytecode bytes) { g with bytecode }

theorem map_ok {β : Type} {x : Except Error α} {f : α → β} {b : β} (h : x.map f = .ok b) :
    ∃ a, x = .ok a ∧ f a = b := by
  cases x with
  | error e => cases h
  | ok a => exact ⟨a, rfl, by cases h; rfl⟩

section
variable {α : Type} {rest : Except Error α} {a : α} {f : Unit → Except Error α}
  {e : Error} {p : Prop}

/-- A check was passed before the rest. -/
theorem passed [Decidable p]
    (h : ((if p then .ok () else .error e : Except Error Unit) >>= f) = .ok a) : p ∧ f () = .ok a := by
  split at h
  · exact ⟨‹_›, h⟩
  · cases h

theorem unrefused [Decidable p] (h : (if p then .error e else rest) = .ok a) :
    ¬ p ∧ rest = .ok a := by
  split at h
  · cases h
  · exact ⟨‹_›, h⟩

theorem checkOpen_ok (h : (g.checkOpen >>= f) = .ok a) : g.frozen = false ∧ f () = .ok a := by
  obtain ⟨_, checked, h⟩ := except_ok h
  exact ⟨Bool.eq_false_iff.2 (unrefused checked).1, h⟩

theorem checkUnfinished_ok (h : (g.checkUnfinished >>= f) = .ok a) :
    g.stubs = none ∧ f () = .ok a := by
  obtain ⟨_, checked, h⟩ := except_ok h
  exact ⟨not_isSome_iff_eq_none.1 (unrefused checked).1, h⟩

/-- The limit on imports is checked for imports only. -/
theorem checkImports_ok {source : Option ImportName}
    (h : (if source.isSome then g.checkImports >>= fun _ => rest else rest) = .ok a) :
    (source.isSome → g.importCount < g.env.limits.imports) ∧ rest = .ok a := by
  split at h
  · exact (passed h).imp (fun few _ => few) id
  · exact ⟨fun some' => absurd some' ‹_›, h⟩

end

theorem placeGlobal_ok {d : Declaration} {ty : GlobalType} {init : GlobalInit} {index more : Nat}
    (is : d.global? = some (ty, init, more))
    (imports : 0 < more → g.importCount < g.env.limits.imports)
    (typed : init.Typed g.env ty.content)
    (h : g.placeGlobal ty init = .ok (index, g')) :
    Accepts g d { g' with importCount := g'.importCount + more } := by
  obtain ⟨opened, h⟩ := checkOpen_ok h
  obtain ⟨few, h⟩ := passed h
  obtain ⟨place, room, h⟩ := Env.reserve_ok (by cases ty.content <;> decide) h
  cases h
  exact .adds opened (.global is imports typed few room)

theorem initTy_ok {init : InitExpr} {ty : ValType} (h : g.initTy init = .ok ty) :
    (GlobalInit.const init).Typed g.env ty := by
  cases init with
  | const v =>
    cases h
    rfl
  | globalGet index =>
    unfold initTy at h
    dsimp only at h
    split at h <;> cases h
    exact ⟨_, ‹_›, rfl⟩

theorem exportItem_ok {entity : Entity} {item : ExportItem} {exports : Exports}
    (h : g.exportItem entity = .ok (item, exports)) :
    g.ListsExport entity item exports := by
  unfold exportItem at h
  cases entity with
  | function func =>
    dsimp only at h
    split at h <;> cases h
    rename_i sig known
    unfold exportFunc
    split
    · rename_i index found
      obtain ⟨lt, same, _⟩ := findIdx?_eq_some_iff_getElem.1 found
      exact .again known (getElem?_eq_getElem lt) (by simpa using same)
    · exact .function known
  | table index =>
    dsimp only at h
    split at h <;> cases h
    exact .table ‹_›
  | memory =>
    dsimp only at h
    split at h <;> cases h
    exact .memory ‹_›
  | global index =>
    dsimp only at h
    split at h <;> cases h
    exact .global ‹_›

/-- No function of a segment is unknown, if none is found. -/
theorem funcs_known {funcs : Array (Option Nat)} {count : Nat}
    (none' : ∀ func, funcs.find? (fun func => func.any (· ≥ count)) ≠ some (some func)) (func : Nat)
    (mem : some func ∈ funcs.toList) :
    func < count := by
  refine Classical.byContradiction fun ge => ?_
  cases found : funcs.find? fun func => func.any (· ≥ count) with
  | none =>
    have := find?_eq_none.1 found (some func) (mem_toList_iff.1 mem)
    simp only [any_some, decide_eq_true_eq] at this
    exact this (Nat.le_of_not_lt ge)
  | some other =>
    have holds := find?_some found
    cases other with
    | none => cases holds
    | some other => exact none' other found

theorem declared_accepts {d : Declaration} (h : g.declared d = .ok g') : Accepts g d g' := by
  cases d with
  | sig sig =>
    obtain ⟨_, made, rfl⟩ := map_ok h
    obtain ⟨opened, made⟩ := checkOpen_ok made
    obtain ⟨few, made⟩ := passed made
    obtain ⟨params, made⟩ := unrefused made
    obtain ⟨place, room, made⟩ := Env.reserve_ok (by decide) made
    cases made
    exact .adds opened (.sig few (Nat.le_of_not_lt params) room)
  | funcImport source sig =>
    obtain ⟨_, made, rfl⟩ := map_ok h
    obtain ⟨opened, made⟩ := checkOpen_ok made
    obtain ⟨few, made⟩ := passed made
    obtain ⟨known, made⟩ := passed made
    obtain ⟨first, made⟩ := unrefused made
    obtain ⟨place, room, made⟩ := Env.reserve_ok (by decide) made
    cases made
    exact .adds opened (.funcImport few known (Decidable.not_not.1 first) room)
  | table bounds source =>
    obtain ⟨_, made, rfl⟩ := map_ok h
    obtain ⟨opened, made⟩ := checkOpen_ok made
    obtain ⟨few, made⟩ := checkImports_ok made
    obtain ⟨within, made⟩ := unrefused made
    obtain ⟨place, room, made⟩ := Env.reserve_ok (by decide) made
    cases made
    exact .adds opened (.table few (Bounds.within_of_not within) room)
  | memory bounds source =>
    obtain ⟨opened, h⟩ := checkOpen_ok h
    obtain ⟨first, h⟩ := unrefused h
    obtain ⟨few, h⟩ := checkImports_ok h
    obtain ⟨within, h⟩ := unrefused h
    cases h
    exact .adds opened (.memory (not_isSome_iff_eq_none.1 first) few (Bounds.within_of_not within))
  | globalImport source ty =>
    obtain ⟨_, made, rfl⟩ := map_ok h
    obtain ⟨few, made⟩ := passed made
    obtain ⟨_, placed, made⟩ := except_ok made
    cases made
    exact placeGlobal_ok rfl (fun _ => few) trivial placed
  | global ty init =>
    obtain ⟨_, made, rfl⟩ := map_ok h
    obtain ⟨found, typed, made⟩ := except_ok made
    obtain ⟨same, placed⟩ := unrefused made
    obtain rfl := Decidable.not_not.1 same
    exact placeGlobal_ok rfl (fun none' => absurd none' (Nat.lt_irrefl 0)) (initTy_ok typed) placed
  | func sig =>
    obtain ⟨_, made, rfl⟩ := map_ok h
    obtain ⟨opened, made⟩ := checkOpen_ok made
    obtain ⟨few, made⟩ := passed made
    obtain ⟨known, made⟩ := passed made
    cases made
    exact .adds opened (.func few known)
  | «export» name entity =>
    obtain ⟨unfinished, h⟩ := checkUnfinished_ok h
    obtain ⟨few, h⟩ := passed h
    obtain ⟨new, h⟩ := unrefused h
    obtain ⟨_, made, h⟩ := except_ok h
    cases h
    exact .export unfinished few (not_isSome_iff_eq_none.1 new) (exportItem_ok made)
  | start func =>
    have h : g.declareStart func = .ok g' := h
    unfold declareStart at h
    split at h
    · cases h
    rename_i sig known
    split at h <;> cases h
    rename_i bare
    obtain ⟨params, result⟩ := sig
    obtain ⟨rfl, rfl⟩ : params = [] ∧ result = none :=
      ⟨List.isEmpty_iff.1 bare.1, isNone_iff_eq_none.1 bare.2⟩
    exact .start known
  | elems segment =>
    obtain ⟨unfinished, h⟩ := checkUnfinished_ok h
    obtain ⟨few, h⟩ := passed h
    obtain ⟨short, h⟩ := unrefused h
    obtain ⟨table, h⟩ := unrefused h
    split at h <;> cases h
    exact .elems unfinished few (Nat.le_of_not_lt short) (Nat.lt_of_not_le table) (funcs_known ‹_›)
  | data segment =>
    obtain ⟨few, h⟩ := passed h
    obtain ⟨memory, h⟩ := unrefused h
    cases h
    exact .data few (isSome_iff_ne_none.2 (by simpa using memory))
  | name text =>
    cases h
    exact .name text
  | funcName func text =>
    cases h
    exact .funcName func text
  | bytecode bytes =>
    cases h
    unfold setBytecode
    split
    · exact .bytecode _ (by rw [if_pos ‹_›])
    · exact .bytecode g.bytecode (by rw [if_neg ‹_›])

end Generator
end Wasmill
