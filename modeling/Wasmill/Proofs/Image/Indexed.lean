import Wasmill.Proofs.Fits
import Wasmill.Proofs.Image.Delimited
import Wasmill.Proofs.World.Refused

/-! Instantiation without missing parts.

Making an instance looks up signatures, globals and tables by their numbers in the module and takes
it for granted that they are there. Here each of these look-ups can fail, and a failure stops
everything. Main statement: for a module that was read from an image, whatever the image and the
imports, none fails; and if the segments do not all fit, none is written. -/
namespace Wasmill
open Steps List Option

namespace World

/-! ### Look-ups that can fail -/

/-- `placeTokens`, with signatures that must be there. -/
def placeTokens? (w : World) (engine : Nat) (env : Env) :
    List Nat → GlobalData → List Nat → Option (World × List Nat × Except Broken GlobalData)
  | [], data, tokens => some (w, tokens.reverse, .ok data)
  | sig :: rest, data, tokens => do
    let (w, token) := w.register engine (← env.sigs[sig]?)
    match data.write (env.sigToken sig) Env.sigTokenSize token with
    | .ok data => w.placeTokens? engine env rest data (token :: tokens)
    | .error fault => some (w, (token :: tokens).reverse, .error fault)

/-- `makeElems`, with functions and signatures that must be there. -/
def makeElems? (w : World) (engine owner : Nat) (env : Env) :
    List (Option Nat × Option Nat) → Option (World × List (Option FuncRef))
  | [] => some (w, [])
  | (some func, some entry) :: rest => do
    let (w, token) := w.register engine (← env.sigOf? func)
    let (w, elems) ← w.makeElems? engine owner env rest
    some (w, some { token, entry, owner } :: elems)
  | _ :: rest => do
    let (w, elems) ← w.makeElems? engine owner env rest
    some (w, none :: elems)

/-- `writeElemSegments`, with tables that must be there. -/
def writeElemSegments? (w : World) (engine owner : Nat) (m : Module) (tables : Array Nat) :
    List (ElemSegment × Code.FuncPtrTable × Nat) → Option World
  | [] => some w
  | (segment, ptrs, offset) :: rest => do
    let (w, elems) ← w.makeElems? engine owner m.env (segment.funcs.toList.zip ptrs.entries.toList)
    let w := w.writeElems engine (← tables[segment.table]?) offset elems
    w.writeElemSegments? engine owner m tables rest

/-- `plan`, with a value for each global that is declared. -/
def plan? (w : World) (m : Module) (tables : List Source) (memory : Option Source)
    (globals : Array Val)
    (data : Except Broken GlobalData) : Option (Except Error Plan) := do
  let values ← m.env.globals.toList.zipIdx.mapM fun (desc, index) => (globals[index]?).map (desc, ·)
  some do
    let placed : Except Broken GlobalData := do
      let data ← (← data).placeExits m.imports.toList
      let data ← data.placeTables m.env.tables.toList
      data.placeGlobals values
    let data ← placed.mapError .internal
    let elems ← elemOffsets w tables.toArray globals m.elems.toList
    let offsets ← dataOffsets (w.memoryBytes memory) globals m.data.toList
    let code ← m.linked.mapError .internal
    return { data, code, elems, offsets }

def build? (w : World) (m : Module) (engine : Nat) (funcs : List Nat) (tables : List Source)
    (memory : Option Source) (tokens : List Nat) (p : Plan) : Option (World × Nat) := do
  let (w, tables) := w.addSources engine tables
  let (w, memory) := w.addMemorySource memory
  let id := w.instances.size
  let made : Instance :=
    { module := m, engine, code := p.code, data := p.data, memory, tables := tables.toArray
      hosts := funcs.toArray, tokens := tokens.toArray }
  let w := { w with instances := w.instances.push made }
  let w ← w.writeElemSegments? engine id m tables.toArray
      (m.elems.toList.zip (m.link.funcPtrs.toList.zip p.elems))
  some (w.writeDataSegments memory (m.data.toList.zip p.offsets), id)

/-- `instantiate`; none where something is looked up that is not there. -/
def instantiate? (w : World) (m : Module) (engine : Nat) (imports : Imports) :
    Option (World × Except Error Nat) :=
  if imports.funcs.length ≠ m.env.funcImports.size then
    some (w, .error (.instantiation (.funcCount m.env.funcImports.size imports.funcs.length)))
  else
    match w.resolveTables engine m.env.tables.toList imports.tables with
    | (w, .error fault) => some (w, .error (.instantiation fault))
    | (w, .ok tables) =>
      match w.resolveMemory m.env.memory imports.memory with
      | .error fault => some (w, .error (.instantiation fault))
      | .ok memory =>
        match resolveGlobals m.env.globals.toList imports.globals #[] with
        | .error e => some (w, .error e)
        | .ok globals => do
          let (w, tokens, data) ← w.placeTokens? engine m.env m.indirectSigs.toList
              (.zero m.env.globalDataLen) []
          match ← w.plan? m tables memory globals data with
          | .error e => some (w.releaseAll engine tokens, .error e)
          | .ok p => do
            let (w, id) ← w.build? m engine imports.funcs tables memory tokens p
            some (w, .ok id)

end World

/-! ### Modules whose parts are there -/

/-- What reading an image checks. -/
structure Module.Indexed (m : Module) : Prop where
  sigs : ∀ sig ∈ m.env.funcs.toList ++ m.indirectSigs.toList, sig < m.env.sigs.size
  funcs : ∀ s ∈ m.elems.toList, ∀ func, some func ∈ s.funcs.toList → func < m.env.funcs.size

variable {m : Module} {w w' : World} {engine owner : Nat}

theorem Image.indexed_of_check {mode : InterruptMode} (ok : check mode m = .ok ()) : m.Indexed := by
  unfold check checkIndices at ok
  dsimp only at ok
  split at ok
  · cases ok
  split at ok
  · cases ok
  split at ok
  · cases ok
  · next sigs =>
    split at ok
    · cases ok
    · next funcs =>
      have sigs := find?_eq_none.1 (eq_none_iff_forall_ne_some.2 sigs)
      have funcs := find?_eq_none.1 (eq_none_iff_forall_ne_some.2 funcs)
      refine ⟨fun sig mem => ?_, fun s mem func there => ?_⟩
      · simpa using sigs sig mem
      · simpa using funcs func
          (mem_append_left _ (mem_flatMap.2 ⟨s, mem, mem_filterMap.2 ⟨_, there, rfl⟩⟩))

theorem Module.Indexed.sigOf? (indexed : m.Indexed) {s : ElemSegment} (mem : s ∈ m.elems.toList)
    {func : Nat}
    (there : some func ∈ s.funcs.toList) : ∃ sig, m.env.sigOf? func = some sig :=
  Env.exists_sigOf? (indexed.funcs s mem func there) fun sig mem =>
    indexed.sigs sig (mem_append_left _ mem)

namespace World
variable {memory : Option Source} {globals : Array Val} {tables : List Source}
  {data : Except Broken GlobalData}
  {descs : List GlobalDesc} {env : Env} {p : Plan}

theorem placeTokens?_eq {sigs : List Nat} (there : ∀ sig ∈ sigs, sig < env.sigs.size)
    (data : GlobalData) (tokens : List Nat) :
    w.placeTokens? engine env sigs data tokens = some
      (w.placeTokens engine env sigs data tokens) := by
  induction sigs generalizing w data tokens with
  | nil => rfl
  | cons sig sigs ih =>
    have known := there sig mem_cons_self
    unfold placeTokens? placeTokens
    rw [Array.getD_eq_getD_getElem?, Array.getElem?_eq_getElem known]
    dsimp only [bind_eq_bind, bind_some, getD_some]
    cases data.write (env.sigToken sig) Env.sigTokenSize (w.register engine env.sigs[sig]).2 with
    | ok data => exact ih (fun sig mem => there sig (mem_cons_of_mem _ mem)) ..
    | error fault => rfl

theorem makeElems?_eq {elems : List (Option Nat × Option Nat)}
    (there : ∀ func entry, (some func, entry) ∈ elems → ∃ sig, env.sigOf? func = some sig) :
    w.makeElems? engine owner env elems = some (w.makeElems engine owner env elems) := by
  induction elems generalizing w with
  | nil => rfl
  | cons elem elems ih =>
    have rest := fun w => ih (w := w) fun func entry mem => there func entry (mem_cons_of_mem _ mem)
    match elem with
    | (some func, some entry) =>
      obtain ⟨sig, known⟩ := there func (some entry) mem_cons_self
      unfold makeElems? makeElems
      rw [known]
      simp only [bind_eq_bind, bind_some, rest, getD_some]
    | (none, _) | (some _, none) =>
      unfold makeElems? makeElems
      simp only [bind_eq_bind, bind_some, rest]

theorem writeElemSegments?_eq (indexed : m.Indexed) {tables : Array Nat}
    {segments : List (ElemSegment × Code.FuncPtrTable × Nat)}
    (there : ∀ s ∈ segments, s.1 ∈ m.elems.toList ∧ s.1.table < tables.size) :
    w.writeElemSegments? engine owner m tables segments = some
      (w.writeElemSegments engine owner m tables segments) := by
  induction segments generalizing w with
  | nil => rfl
  | cons s segments ih =>
    obtain ⟨segment, ptrs, offset⟩ := s
    obtain ⟨mem, known⟩ := there _ mem_cons_self
    have made :
        w.makeElems? engine owner m.env (segment.funcs.toList.zip ptrs.entries.toList) = some _ :=
      makeElems?_eq fun func entry there => indexed.sigOf? mem (of_mem_zip there).1
    unfold writeElemSegments? writeElemSegments
    rw [made, Array.getElem?_eq_getElem known, Array.getD_eq_getD_getElem?,
      Array.getElem?_eq_getElem known]
    exact ih fun s mem => there s (mem_cons_of_mem _ mem)

theorem build?_eq (indexed : m.Indexed) {funcs : List Nat} {tokens : List Nat}
    (known : ∀ s ∈ m.elems.toList, s.table < tables.length) :
    w.build? m engine funcs tables memory tokens p = some
      (w.build m engine funcs tables memory tokens p) := by
  unfold build? build
  dsimp only
  rw [writeElemSegments?_eq indexed fun s mem => ?_]
  · rfl
  · have listed : s.1 ∈ m.elems.toList := (of_mem_zip mem).1
    exact ⟨listed, by rw [List.size_toArray, length_addSources]; exact known _ listed⟩

/-- Each global that is declared has a value. -/
theorem resolveGlobals_size {given : List Val} {done : Array Val}
    (is : resolveGlobals descs given done = .ok globals) :
    globals.size = done.size + descs.length := by
  fun_induction resolveGlobals descs given done with
  | case1 => cases is; rfl
  | case2 => cases is
  | case3 desc descs given done init named ih =>
    obtain ⟨v, -, is⟩ := except_ok is
    rw [ih v is, Array.size_push, length_cons]
    omega
  | case4 => cases is
  | case5 desc descs done source named v given own ih =>
    rw [ih is, Array.size_push, length_cons]
    omega
  | case6 => cases is

theorem mapM_zipIdx {k : Nat} (all : globals.size = k + descs.length) :
    (descs.zipIdx k).mapM (fun (desc, index) => (globals[index]?).map (desc, ·)) = some
      (descs.zip (globals.toList.drop k)) := by
  induction descs generalizing k with
  | nil => rfl
  | cons desc descs ih =>
    rw [length_cons] at all
    have lt : k < globals.size := by omega
    have here : globals.toList.drop k = globals[k] :: globals.toList.drop (k + 1) :=
      drop_eq_getElem_cons lt
    rw [zipIdx_cons, mapM_cons, ih (by omega), here]
    dsimp only
    rw [Array.getElem?_eq_getElem lt]
    rfl

theorem plan?_eq (all : globals.size = m.env.globals.size) :
    w.plan? m tables memory globals data = some (w.plan m tables memory globals data) := by
  unfold plan? plan
  rw [mapM_zipIdx (by simpa using all)]
  rfl

/-- All segments fit where they go. -/
def AllFit (w : World) (m : Module) (engine : Nat) (imports : Imports) : Prop :=
  ∃ w₁ tables memory globals,
    w.resolveTables engine m.env.tables.toList imports.tables = (w₁, .ok tables) ∧
    w₁.resolveMemory m.env.memory imports.memory = .ok memory ∧
    resolveGlobals m.env.globals.toList imports.globals #[] = .ok globals ∧
    (∀ s ∈ m.elems.toList, ∃ offset table,
      s.offset.offset globals = .ok offset ∧ tables[s.table]? = some table ∧
      offset + s.funcs.size ≤ w₁.tableSize table) ∧
    ∀ s ∈ m.data.toList, ∃ offset, s.offset.offset globals = .ok offset ∧
      offset + s.bytes.size ≤ w₁.memoryBytes memory

/-- No memory and no element of a table is different. -/
def Unwritten (w w' : World) : Prop :=
  w'.memories = w.memories ∧ ∀ t : Nat, (w'.tables[t]?).map (·.elems) = (w.tables[t]?).map (·.elems)

theorem TakesTables.unwritten {given : List Nat} (binds : w.TakesTables w' engine given) :
    w.Unwritten w' := by
  refine ⟨by rw [binds.rest], fun t => ?_⟩
  rcases binds.tables t with same | ⟨-, tbl, was, -, now⟩
  · rw [same]
  · rw [was, now]
    rfl

theorem plan_fits (is : w.plan m tables memory globals data = .ok p) :
    (∀ s ∈ m.elems.toList, ∃ offset table,
      s.offset.offset globals = .ok offset ∧ tables[s.table]? = some table ∧
      offset + s.funcs.size ≤ w.tableSize table) ∧
    ∀ s ∈ m.data.toList, ∃ offset, s.offset.offset globals = .ok offset ∧
      offset + s.bytes.size ≤ w.memoryBytes memory := by
  unfold plan at is
  dsimp only at is
  obtain ⟨_, -, is⟩ := except_ok is
  obtain ⟨elems, placed, is⟩ := except_ok is
  obtain ⟨offsets, placed', -⟩ := except_ok is
  unfold elemOffsets at placed
  unfold dataOffsets at placed'
  rw [mapM_ok] at placed placed'
  refine ⟨fun s mem => ?_, fun s mem => ?_⟩
  · obtain ⟨_, -, one⟩ := List.mem_map.1 (placed ▸ List.mem_map_of_mem mem)
    obtain ⟨offset, at', one⟩ := except_ok one.symm
    split at one
    · cases one
    · next table known =>
      split at one
      · next fits => exact ⟨offset, table, at', by simpa using known, fits⟩
      · cases one
  · obtain ⟨_, -, one⟩ := List.mem_map.1 (placed' ▸ List.mem_map_of_mem mem)
    obtain ⟨offset, at', one⟩ := except_ok one.symm
    split at one
    · next fits => exact ⟨offset, at', fits⟩
    · cases one

end World

/-- Every module read from an image is instantiated or refused without a look-up that fails; if it
is refused, nothing is written, and if not, all segments fit. -/
theorem Module.ofImage_instantiates {config : Config} {bytes : ByteArray}
    (read : Module.ofImage config bytes = .ok m) (w : World)
    (engine : Nat) (imports : Imports) :
    w.instantiate? m engine imports = some (w.instantiate m engine imports) ∧
    match w.instantiate m engine imports with
    | (w', .error _) => w.Unwritten w'
    | (_, .ok _) => w.AllFit m engine imports := by
  obtain ⟨-, _, -, -, checked⟩ := Image.read_ok.1 (Module.ofImage_ok.1 read)
  have indexed := Image.indexed_of_check checked
  unfold World.instantiate? World.instantiate
  by_cases count : imports.funcs.length ≠ m.env.funcImports.size
  · rw [if_pos count, if_pos count]
    exact ⟨rfl, (World.TakesTables.refl w engine []).unwritten⟩
  rw [if_neg count, if_neg count]
  have bound : w.TakesTables _ engine imports.tables :=
    World.resolveTables_takes m.env.tables.toList imports.tables
  rcases resolved : w.resolveTables engine m.env.tables.toList imports.tables with
    ⟨w₁, fault | tables⟩ <;> rw [resolved] at bound
  · exact ⟨rfl, bound.unwritten⟩
  dsimp only at bound ⊢
  cases memory' : w₁.resolveMemory m.env.memory imports.memory with
  | error fault => exact ⟨rfl, bound.unwritten⟩
  | ok memory =>
  cases globals' : resolveGlobals m.env.globals.toList imports.globals #[] with
  | error e => exact ⟨rfl, bound.unwritten⟩
  | ok globals =>
  obtain ⟨_, -, ⟨rest, -, -, -, -⟩⟩ :=
    @World.placeTokens_placed w₁ engine m.env m.indirectSigs.toList (.zero m.env.globalDataLen) []
  dsimp only
  rw [World.placeTokens?_eq fun sig mem => indexed.sigs sig (mem_append_right _ mem)]
  rcases placed : w₁.placeTokens engine m.env m.indirectSigs.toList
    (.zero m.env.globalDataLen) [] with ⟨w₂, tokens, data⟩
  rw [placed] at rest
  dsimp only [bind_eq_bind, bind_some] at rest ⊢
  rw [World.plan?_eq (by simpa using World.resolveGlobals_size globals'), bind_some]
  cases planned : w₂.plan m tables memory globals data with
  | error e =>
    refine ⟨rfl, ?_⟩
    dsimp only
    rw [World.rest_releaseAll, rest]
    exact bound.unwritten
  | ok p =>
    obtain ⟨elems, data⟩ := World.plan_fits planned
    have known : ∀ s ∈ m.elems.toList, s.table < tables.length := fun s mem => by
      obtain ⟨_, _, -, known, -⟩ := elems s mem
      exact (List.getElem?_eq_some_iff.1 known).1
    dsimp only
    rw [World.build?_eq indexed known]
    rw [rest] at elems data
    exact ⟨rfl, w₁, tables, memory, globals, resolved, memory', globals', elems, data⟩

/-- A module whose segment goes to a table that is not there. -/
def Module.astray : Module :=
  { (default : Module) with
    env := { sigs := #[⟨[], none⟩], funcs := #[0], sigTokens := ⟨#[0], 0⟩, globalDataLen := 8 }
    indirectSigs := #[0]
    elems := #[⟨5, .const (.i32 0), #[some 0]⟩] }

theorem Module.ofImage_instantiates_astray :
    ∃ m w' e, Module.ofImage {} (astray.toImage {}) = .ok m ∧
    (default : World).instantiate? m 0 {} = some (w', .error e) ∧
    (default : World).Unwritten w' := by
  have shown : (match Image.read {} (Image.write 33554432 astray) with
      | .ok m => !((default : World).instantiate m 0 {}).2.isOk
      | .error _ => false) = true := by decide +kernel
  cases read : Image.read {} (Image.write 33554432 astray) with
  | error fault =>
    rw [read] at shown
    cases shown
  | ok m =>
    rw [read] at shown
    dsimp only at shown
    have restored : Module.ofImage {} (astray.toImage {}) = .ok m := Module.ofImage_ok.2 read
    obtain ⟨there, written⟩ := ofImage_instantiates restored default 0 {}
    rcases is : (default : World).instantiate m 0 {} with ⟨w', e | id⟩ <;>
      rw [is] at there written shown
    · exact ⟨m, w', e, restored, there, written⟩
    · cases shown

end Wasmill
