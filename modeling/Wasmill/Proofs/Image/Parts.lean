import Mathlib.Data.List.DropRight
import Mathlib.Data.List.TakeWhile
import Wasmill.Proofs.Fits
import Wasmill.Proofs.Image.Codec

/-! The parts of a module are read back.

Only the places of signature tokens come back in another form: those that are left out at the end
are looked up all the same. -/
namespace Wasmill
open List Option

/-- Without what is left out when it is written. -/
def TokenPlaces.trimmed (p : TokenPlaces) : TokenPlaces :=
  { p with listed := (p.listed.toList.reverse.dropWhile (· = p.others)).reverse.toArray }

/-- The module as it is restored. -/
def Module.trimmed (m : Module) : Module :=
  { m with env := { m.env with sigTokens := m.env.sigTokens.trimmed } }

namespace Image
open Code Codec

/-! ### Declarations -/

instance : Faithful valType fun _ => True where
  back ty _ _ rest := by
    have small : ty.toByte < 251 := by cases ty <;> decide
    show (do
      let (byte, rest) ← tag.read (tag.write ty.toByte ++ rest)
      return (← ValType.ofByte? byte, rest)) = _
    simp [tag_back small, ValType.ofByte?_toByte]
  some' ty := writeNat_pos ty.toByte

instance : Faithful sig fun _ => True :=
  .via (fun _ => rfl) fun _ _ => ⟨fun _ _ => trivial, fun _ _ => trivial⟩

instance : Faithful bounds Bounds.Fits := .via (fun _ => rfl) fun _ fits => fits

instance : Faithful globalType fun _ => True := .via (fun _ => rfl) fun _ _ => ⟨trivial, trivial⟩

instance : Faithful initExpr InitExpr.Fits where
  back e fits short rest := by
    cases e with
    | const v =>
      cases v with
      | i32 v | i64 v =>
        obtain ⟨first, second⟩ :=
          (faithful_signed (by decide) (by decide)).tagged (by decide) trivial short rest
        simp [initExpr, first, second, via]
      | f32 v | f64 v =>
        obtain ⟨first, second⟩ :=
          (faithful_word (.inl rfl) (by decide)).tagged (by decide) trivial short rest
        simp [initExpr, first, second, via]
      | v128 v =>
        obtain ⟨first, second⟩ :=
          (faithful_word (.inr rfl) (by decide)).tagged (by decide) trivial short rest
        simp [initExpr, first, second, via]
    | globalGet index =>
      obtain ⟨first, second⟩ := faithful_u32.tagged (by decide) fits short rest
      simp [initExpr, first, second, via]
  some' e := by
    cases e with
    | const v => cases v <;> exact tag_pos _ _
    | globalGet index => exact tag_pos _ _

instance : Faithful importName fun _ => True := .via (fun _ => rfl) fun _ _ => ⟨trivial, trivial⟩

instance : Faithful funcImport fun i => i.sig < UInt32.size ∧ i.record < UInt32.size :=
  .via (fun _ => rfl) fun _ fits => ⟨trivial, fits⟩

instance : Faithful tableDesc fun t => t.bounds.Fits ∧ t.handle < UInt32.size :=
  .via (fun _ => rfl) fun _ fits => ⟨fits.1, fun _ _ => trivial, fits.2⟩

instance : Faithful memoryDesc fun m => m.bounds.Fits :=
  .via (fun _ => rfl) fun _ fits => ⟨fits, fun _ _ => trivial⟩

instance : Faithful globalInit GlobalInit.Fits where
  back e fits short rest := by
    cases e with
    | const init =>
      obtain ⟨first, second⟩ :=
        Faithful.tagged (c := initExpr) inferInstance (by decide) fits short rest
      simp [globalInit, first, second]
    | imported source =>
      obtain ⟨first, second⟩ :=
        Faithful.tagged (c := importName) inferInstance (by decide) trivial short rest
      simp [globalInit, first, second]
  some' e := by cases e <;> exact tag_pos _ _

instance : Faithful globalDesc fun g => g.init.Fits ∧ g.place < UInt32.size :=
  .via (fun _ => rfl) fun _ fits => ⟨trivial, fits⟩

instance : Faithful interruptMode fun _ => True where
  back mode _ _ rest := by
    cases mode with
    | polling => simp [interruptMode, tag_back (show 0 < 251 by decide)]
    | signal => simp [interruptMode, tag_back (show 1 < 251 by decide)]
  some' mode := by
    cases mode with
    | polling => exact writeNat_pos 0
    | signal => exact writeNat_pos 1

instance : Faithful limits Limits.Fits where
  back l fits short rest := by
    have read := Faithful.readMany fits short rest
    show (do
      let (fields, rest) ← readMany u32 12 (l.all.flatMap u32.write ++ rest)
      match fields with
      | [types, funcs, imports, exports, globals, dataSegments, elemSegments, tableElems,
          memoryPages, params, locals, functionSize] =>
        return (({ types, funcs, imports, exports, globals, dataSegments, elemSegments
                   tableElems, memoryPages, params, locals, functionSize } : Limits), rest)
      | _ => none) = _
    rw [show l.all.length = 12 from rfl] at read
    rw [read]
    rfl
  some' l := tag_pos _ _

/-! ### Token places -/

/-- The places that are written: without those at the end that equal the place of all others. -/
def listedPlaces (p : TokenPlaces) : List Nat :=
  (p.listed.toList.reverse.dropWhile (· = p.others)).reverse

theorem listedPlaces_trimmed (p : TokenPlaces) : listedPlaces p.trimmed = listedPlaces p := by
  unfold listedPlaces TokenPlaces.trimmed
  dsimp only
  rw [reverse_reverse, dropWhile_idempotent]

theorem write_trimmed (p : TokenPlaces) : tokenPlaces.write p.trimmed = tokenPlaces.write p := by
  have same : ∀ p : TokenPlaces, tokenPlaces.write p =
      u32.option.list.write (some p.others :: (listedPlaces p).map fun place =>
        if place = p.others then none else some place) :=
    fun _ => rfl
  rw [same, same, listedPlaces_trimmed]
  rfl

/-- What is left out at the end is looked up all the same. -/
theorem get_trimmed (p : TokenPlaces) (sig : Nat) : p.trimmed.get sig = p.get sig := by
  have split :
      p.listed.toList = listedPlaces p ++
      (p.listed.toList.reverse.takeWhile (· = p.others)).reverse := by
    rw [listedPlaces, ← reverse_append, takeWhile_append_dropWhile, reverse_reverse]
  have here : p.trimmed.get sig = (listedPlaces p)[sig]?.getD p.others := by
    show (listedPlaces p).toArray.getD sig p.others = _
    rw [Array.getD_eq_getD_getElem?, getElem?_toArray]
  have there : p.get sig = p.listed.toList[sig]?.getD p.others := by
    show p.listed.getD sig p.others = _
    rw [Array.getD_eq_getD_getElem?, Array.getElem?_toList]
  rw [here, there, split]
  by_cases inside : sig < (listedPlaces p).length
  · rw [getElem?_append_left inside]
  · rw [getElem?_append_right (Nat.le_of_not_lt inside), getElem?_eq_none (Nat.le_of_not_lt inside)]
    cases at' :
      (p.listed.toList.reverse.takeWhile (· = p.others)).reverse[sig - (listedPlaces p).length]? with
    | none => rfl
    | some place =>
      have mem := mem_reverse.1 (mem_of_getElem? at')
      have same := mem_takeWhile_imp mem
      rw [getD_some, of_decide_eq_true same]
      rfl

theorem tokenPlaces_back {p : TokenPlaces} (fits : p.Fits)
    (short : (tokenPlaces.write p).length < UInt64.size) (rest : List UInt8) :
    tokenPlaces.read (tokenPlaces.write p ++ rest) = some (p.trimmed, rest) := by
  let written := some p.others :: (listedPlaces p).map fun place => if place = p.others then none
    else some place
  have all : ∀ o ∈ written, ∀ n, o = some n → n < UInt32.size := by
    intro o mem n is
    rcases mem_cons.1 mem with rfl | mem
    · cases is
      exact fits.1
    · obtain ⟨place, there, rfl⟩ := List.mem_map.1 mem
      split at is
      · cases is
      · cases is
        have mem := (dropWhile_sublist _).subset (mem_reverse.1 there)
        exact fits.2 n (mem_reverse.1 mem)
  have read : u32.option.list.read (u32.option.list.write written ++ rest) = some (written, rest) :=
    Faithful.back written all short rest
  have same : ((listedPlaces p).map fun place => if place = p.others then none else some place).map
      (·.getD p.others) =
      listedPlaces p := by
    rw [List.map_map]
    conv => rhs; rw [← List.map_id (listedPlaces p)]
    refine map_congr_left fun place _ => ?_
    show (if place = p.others then none else some place).getD p.others = place
    split
    · rename_i is
      exact is.symm
    · rfl
  show (u32.option.list.read (u32.option.list.write written ++ rest)).bind _ = _
  rw [read]
  show some ((⟨(List.map _ (List.map _ (listedPlaces p))).toArray, p.others⟩ : TokenPlaces),
    rest) = _
  rw [same]
  rfl

/-! ### Environments -/

/-- The environment as it is restored. -/
def trimmedEnv (e : Env) : Env := { e with sigTokens := e.sigTokens.trimmed }

theorem env_back {e : Env} (fits : e.Fits) (short : (env.write e).length < UInt64.size)
    (rest : List UInt8) :
    env.read (env.write e ++ rest) = some (trimmedEnv e, rest) := by
  simp only [env, length_append] at short
  have sigs := Faithful.back (c := sig.array) e.sigs (fun _ _ => trivial) (by omega)
  have funcs := Faithful.back (c := u32.array) e.funcs
    (fun sig mem => Nat.lt_trans (fits.funcs sig mem) fits.sigs) (by omega)
  have funcImports :=
    Faithful.back (c := funcImport.array) e.funcImports fits.funcImports (by omega)
  have tables := Faithful.back (c := tableDesc.array) e.tables fits.tables (by omega)
  have memory := Faithful.back (c := memoryDesc.option) e.memory fits.memory (by omega)
  have globals := Faithful.back (c := globalDesc.array) e.globals fits.globals (by omega)
  have sigTokens :=
    tokenPlaces_back fits.sigTokens (show (tokenPlaces.write e.sigTokens).length < _ by omega)
  have globalDataLen := Faithful.back (c := u32) e.globalDataLen fits.globalDataLen (by omega)
  have mode := Faithful.back (c := interruptMode) e.interruptMode trivial (by omega)
  have limits' := Faithful.back (c := limits) e.limits fits.limits (by omega)
  simp only [env, append_assoc, sigs, funcs, funcImports, tables, memory, globals, sigTokens,
    globalDataLen, mode, limits',
    bind_eq_bind, bind_some, Option.pure_def]
  rfl

/-! ### Code -/

instance : Faithful rangeKind RangeKind.Fits where
  back kind fits short rest := by
    cases kind with
    | function func bytecode entry =>
      simp only [rangeKind, length_append] at short
      have first := faithful_u32.back func fits.1 (by omega)
      have second := faithful_u32.back bytecode fits.2.1 (by omega)
      have third := faithful_u32.back entry fits.2.2 (by omega)
      simp [rangeKind, tag_back (show 0 < 251 by decide), first, second, third]
    | entry index | interpExit index | jitExit index | callThunk index =>
      obtain ⟨first, second⟩ := faithful_u32.tagged (by decide) fits short rest
      simp [rangeKind, first, second]
    | errorExit =>
      simp [rangeKind, tag_back (show 4 < 251 by decide)]
    | inline =>
      simp [rangeKind, tag_back (show 5 < 251 by decide)]
  some' kind := by
    cases kind with
    | function func bytecode entry =>
      simp only [rangeKind, append_assoc]
      exact tag_pos _ _
    | entry index | interpExit index | jitExit index | callThunk target => exact tag_pos _ _
    | errorExit => exact writeNat_pos 4
    | inline => exact writeNat_pos 5

instance : Faithful range fun r => r.kind.Fits ∧ r.start < UInt32.size ∧ r.stop < UInt32.size :=
  .via (fun _ => rfl) fun _ fits => fits

instance : Faithful site fun s => s.code < UInt32.size ∧ s.bytecode < UInt32.size :=
  .via (fun _ => rfl) fun _ fits => fits

instance : Faithful callSite fun s => s.returnsTo < UInt32.size ∧ s.bytecode < UInt32.size :=
  .via (fun _ => rfl) fun _ fits => fits

instance : Faithful elemSegment fun s => s.Fits UInt32.size UInt32.size :=
  .via (fun _ => rfl) fun _ fits => ⟨fits.table, fits.offset, fits.funcs⟩

instance : Faithful stubs StubOffsets.Fits := .via (fun _ => rfl) fun _ fits => fits

instance : Faithful internalLink fun l => l.patchAt < UInt32.size ∧ l.target < UInt32.size :=
  .via (fun _ => rfl) fun _ fits => fits

instance : Faithful funcPtrTable fun t => t.table < UInt32.size ∧ t.handle < UInt32.size ∧
    ∀ entry ∈ t.entries.toList, ∀ place, entry = some place → place < UInt32.size :=
  .via (fun _ => rfl) fun _ fits => fits

instance : Faithful linkData LinkData.Fits :=
  .via (fun _ => rfl) fun _ fits => ⟨fits.internal, fits.symbolic, fits.funcPtrs⟩

/-! ### Imports, exports and data -/

instance : Faithful funcExit fun i =>
    (i.sig < UInt32.size ∧ i.record < UInt32.size) ∧ i.interpExit < UInt32.size ∧
      i.jitExit < UInt32.size :=
  .via (fun _ => rfl) fun _ fits => ⟨trivial, fits⟩

instance : Faithful «export» fun e => e.func < UInt32.size ∧ e.sig < UInt32.size ∧
    e.entry < UInt32.size :=
  .via (fun _ => rfl) fun _ fits => fits

instance : Faithful exportItem ExportItem.Fits where
  back item fits short rest := by
    cases item with
    | function index | table index | global index =>
      obtain ⟨first, second⟩ := faithful_u32.tagged (by decide) fits short rest
      simp [exportItem, first, second]
    | memory =>
      simp [exportItem, tag_back (show 2 < 251 by decide)]
  some' item := by
    cases item with
    | function index | table index | global index => exact tag_pos _ _
    | memory => exact writeNat_pos 2

instance : Faithful exports Exports.Fits :=
  .via (fun _ => rfl) fun _ fits => ⟨fits.funcs, fun name mem => ⟨trivial, fits.names name mem⟩⟩

instance : Faithful dataSegment fun s => s.offset.Fits :=
  .via (fun _ => rfl) fun _ fits => ⟨fits, trivial⟩

/-! ### Modules -/

theorem metadata_back {m : Module} (fits : m.Fits)
    (short : (metadata.write m).length < UInt64.size) :
    metadata.decode (metadata.write m) =
      some { m.trimmed with
        code := ByteArray.empty, link := {}, imports := #[], exports := {}, data := #[]
        bytecode := none } := by
  simp only [metadata, length_append] at short
  have small : ∀ {n : Nat}, n ≤ m.code.size → n < UInt32.size :=
    fun le => Nat.lt_of_le_of_lt le fits.code
  have env' := env_back fits.env (show (env.write m.env).length < _ by omega)
  have ranges := Faithful.back (c := range.array) m.ranges
    (fun r mem => ⟨(fits.ranges r mem).1, (fits.ranges r mem).2.1,
      small (fits.ranges r mem).2.2⟩) (by omega)
  have trapSites := Faithful.back (c := site.array) m.trapSites fits.trapSites (by omega)
  have callSites := Faithful.back (c := callSite.array) m.callSites fits.callSites (by omega)
  have start := Faithful.back (c := u32.option) m.start
    (fun func is => Nat.lt_trans (fits.start func is) fits.env.funcCount) (by omega)
  have startEntry := Faithful.back (c := u32.option) m.startEntry fits.startEntry (by omega)
  have tables : m.env.tables.size < UInt32.size :=
    Nat.lt_of_le_of_lt fits.env.tableCount fits.env.globalDataLen
  have elems := Faithful.back (c := elemSegment.array) m.elems
    (fun s mem => ⟨Nat.lt_trans (fits.elems s mem).table tables, (fits.elems s mem).offset,
      fun func there f is =>
        Nat.lt_trans ((fits.elems s mem).funcs func there f is) fits.env.funcCount⟩) (by omega)
  have stubs' := Faithful.back (c := stubs) m.stubs fits.stubs (by omega)
  have indirectSigs := Faithful.back (c := u32.array) m.indirectSigs
    (fun sig mem => Nat.lt_trans (fits.indirectSigs sig mem) fits.env.sigs) (by omega)
  have name := Faithful.back (c := string.option) m.name (fun _ _ => trivial) (by omega)
  have funcNames := Faithful.back (c := (u32.pair string).array) m.funcNames
    (fun name mem => ⟨fits.funcNames name mem, trivial⟩) (by omega) []
  rw [append_nil] at funcNames
  have read : metadata.read (metadata.write m) = some ({ m.trimmed with
      code := ByteArray.empty, link := {}, imports := #[], exports := {}, data := #[], bytecode :=
        none }, []) := by
    simp only [metadata, append_assoc, env', ranges, trapSites, callSites, start, startEntry, elems,
      stubs', indirectSigs, name,
      funcNames, bind_eq_bind, bind_some, Option.pure_def]
    rfl
  unfold Codec.decode
  rw [read]

theorem decodes_content {m : Module} (fits : m.Fits)
    (short : ∀ tag, (content m tag).length < UInt64.size) :
    Decodes (content m) m.trimmed where
  small := short
  metadata := ⟨_, metadata_back fits (short .metadata), rfl⟩
  code := by
    show m.code = ⟨m.code.toList.toArray⟩
    rw [ByteArray.toList_eq_data]
  link := Faithful.decode fits.link (short .linkData)
  imports := Faithful.decode fits.imports (short .imports)
  exports := Faithful.decode fits.exports (short .exports)
  data := Faithful.decode fits.data (short .dataSegments)
  bytecode := Faithful.decode (fun _ _ => trivial) (short .bytecode)

theorem content_trimmed (m : Module) : content m.trimmed = content m := by
  have same : env.write m.trimmed.env = env.write m.env := by
    simp only [env]
    rw [show m.trimmed.env.sigTokens = m.env.sigTokens.trimmed from rfl, write_trimmed]
    rfl
  funext tag
  cases tag with
  | metadata =>
    simp only [content, metadata]
    rw [same]
    rfl
  | _ => rfl

theorem check_trimmed (mode : InterruptMode) (m : Module) :
    check mode m.trimmed = check mode m := rfl

theorem check_ok {m : Module} (fits : m.Fits) : check m.env.interruptMode m = .ok () := by
  have inside : m.ranges.back?.any (m.code.size < ·.stop) = false := by
    cases last : m.ranges.back? with
    | none => rfl
    | some r =>
      have mem : r ∈ m.ranges.toList := by
        rw [Array.back?_eq_getElem?] at last
        exact Steps.mem_toList_of_at last
      simpa using (fits.ranges r mem).2.2
  have sigs : (m.env.funcs.toList ++ m.indirectSigs.toList).find?
      (fun sig => decide (m.env.sigs.size ≤ sig)) = none := by
    rw [find?_eq_none]
    intro sig mem
    rcases mem_append.1 mem with mem | mem
    · simpa using fits.env.funcs sig mem
    · simpa using fits.indirectSigs sig mem
  have funcs :
      ((m.elems.toList.flatMap fun s => s.funcs.toList.filterMap id) ++ m.start.toList).find?
      (fun func => decide (m.env.funcs.size ≤ func)) = none := by
    rw [find?_eq_none]
    intro func mem
    rcases mem_append.1 mem with mem | mem
    · obtain ⟨s, there, inside⟩ := mem_flatMap.1 mem
      obtain ⟨_, listed, is⟩ := mem_filterMap.1 inside
      simpa using (fits.elems s there).funcs _ listed func is
    · simpa using fits.start func (mem_toList.1 mem)
  have indices : checkIndices m = .ok () := by
    unfold checkIndices
    dsimp only
    rw [sigs]
    dsimp only
    rw [funcs]
    rfl
  unfold check
  dsimp only
  rw [if_neg (by simp), inside]
  exact indices

end Image
end Wasmill
