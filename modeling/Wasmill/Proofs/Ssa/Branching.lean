import Wasmill.Proofs.Ssa.Building
import Mathlib.Data.List.Forall2

/-! Branches while a body is compiled.

A branch decides where its edges lead, ends the current block, and then tells each frame about the
edges to it. In between a loop header has edges its frame does not know yet. -/
namespace Wasmill.Ssa
open Build Steps List Ssa.Function
variable {control : List Frame} {c i : Nat} {f : Function} {r : EdgeRef}

/-! ### Ending a block -/

/-- The edges of block `b` from number `i` on, `n` of them. -/
def refs (b i n : Nat) : List EdgeRef := (List.range' i n).map (EdgeRef.mk b)

@[simp] theorem refs_succ (b i n : Nat) : refs b i (n + 1) = ⟨b, i⟩ :: refs b (i + 1) n := rfl

theorem mem_refs {b n : Nat} : r ∈ refs b i n ↔ r.block = b ∧ i ≤ r.index ∧ r.index < i + n := by
  obtain ⟨c, k⟩ := r
  simp only [refs, mem_map, mem_range'_1, EdgeRef.mk.injEq]
  constructor
  · rintro ⟨j, bounds, rfl, rfl⟩
    exact ⟨rfl, bounds⟩
  · rintro ⟨rfl, bounds⟩
    exact ⟨k, bounds, rfl, rfl⟩

namespace Builder
variable {s : Builder} {b : Nat} {exit : Exit}

theorem left_adds (unleft : (s.func.block b).leave = none) : s.func.Adds (s.left b exit).func :=
  modifyBlock_adds unleft rfl prefix_rfl

theorem left_leave (lt : b < s.func.blocks.size) :
    ((s.left b exit).func.block b).leave = some ⟨exit, s.srcloc⟩ := by
  simp [Builder.left, block_modifyBlock, lt]

theorem left_block (other : c ≠ b) : (s.left b exit).func.block c = s.func.block c := by
  simp [Builder.left, block_modifyBlock, Ne.symm other]

theorem left_edgeAt? (lt : b < s.func.blocks.size) (r : EdgeRef) : (s.left b exit).func.edgeAt? r =
      if r.block = b then exit.edges[r.index]? else s.func.edgeAt? r := by
  by_cases here : r.block = b
  · simp [Function.edgeAt?, here, left_leave lt]
  · simp [Function.edgeAt?, here, left_block here]

theorem left_edge? (lt : b < s.func.blocks.size) (i : Nat) :
    (s.left b exit).func.edge? ⟨b, i⟩ = (exit.edges[i]?).join := by
  simp [edge?_eq_join, left_edgeAt? lt]

theorem left_sound (sound : s.func.Sound)
    (inside : ∀ e, some e ∈ exit.edges → e.block < s.func.blocks.size) :
    (s.left b exit).func.Sound :=
  sound.modifyBlock rfl fun l e leaves mem => by cases leaves; exact inside e mem

/-- An edge that waits, or leads to a header, leaves a block that is ended. -/
theorem Sound.known_ne (sound : s.Sound) (live : s.current = some b) :
    (∀ r ∈ s.control.flatMap Frame.waiting, r.block ≠ b) ∧
      ∀ fr ∈ s.control, ∀ h, fr.kind = .loop (some h) → ∀ r ∈ h.edges, r.block ≠ b := by
  have unleft := (sound.current b live).2
  refine ⟨fun r mem same => ?_, fun fr mem h kind r known same => ?_⟩
  · have waits := sound.control.waits mem
    simp [Function.edgeAt?, same, unleft] at waits
  · obtain ⟨args, edge, _⟩ := (sound.control.loops fr mem h kind).passes r known
    simp [Function.edge?, same, unleft] at edge

theorem Sound.framed_left (sound : s.Sound) (live : s.current = some b) :
    Framed (s.left b exit).func s.localTypes (refs b 0 exit.edges.length) s.control := by
  obtain ⟨lt, unleft⟩ := sound.current b live
  have grown : Framed (s.left b exit).func s.localTypes ([] ++ refs b 0 exit.edges.length)
      s.control := by
    refine sound.control.adds (left_adds unleft) (fun r mem => ?_) fun r e found => ?_
    · rw [left_edgeAt? lt, if_neg ((sound.known_ne live).1 r mem)]
      exact sound.control.waits mem
    · have at' := edgeAt?_of_edge? found
      rw [left_edgeAt? lt] at at'
      split at at'
      · next here =>
        exact .inr
          (.inl (mem_refs.2 ⟨here, Nat.zero_le _, by simpa using (List.getElem?_eq_some_iff.1 at').1⟩))
      · exact .inl (by simp [edge?_eq_join, at'])
  simpa using grown

end Builder

/-! ### Telling the frames -/

/-- Where an edge leads, as far as the frames are to know. -/
def Build.Target.Lands (s : Builder) (r : EdgeRef) : Target → Prop
  | .ret => ∀ e, s.func.edge? r = some e → e.block ∉ s.control.filterMap Frame.header?
  | .header depth => ∃ fr h args, s.control[depth]? = some fr ∧ fr.kind = .loop (some h) ∧
      s.func.edge? r = some ⟨h.block, args⟩ ∧ Fits s.func s.localTypes args
  | .waiting depth result => ∃ fr, s.control[depth]? = some fr ∧ s.func.edgeAt? r = some none ∧
      Yields s.func fr.result result

/-- No frame knows an edge of block `b` from number `i` on. -/
structure Unknown (control : List Frame) (b i : Nat) : Prop where
  waiting : ∀ r ∈ control.flatMap Frame.waiting, r.block = b → r.index < i
  loops : ∀ fr ∈ control, ∀ h, fr.kind = .loop (some h) → ∀ r ∈ h.edges, r.block = b → r.index < i

/-- What telling the frames comes to: nothing but the frames changes. -/
structure Told (s s' : Builder) (b i : Nat) (ts : List Target) : Prop where
  same : s' = { s with control := s'.control }
  depth : s'.control.length = s.control.length
  frames : ∀ (d : Nat) (fr : Frame), s.control[d]? = some fr →
    ∃ fr', s'.control[d]? = some fr' ∧ fr.Extends s.func s.func fr'
  unknown : Unknown s'.control b (i + ts.length)
  pending : ∀ (j depth : Nat) (result : Option Value), ts[j]? = some (.waiting depth result) →
    ∃ fr : Frame, s'.control[depth]? = some fr ∧ ⟨⟨b, i + j⟩, s.locals, result⟩ ∈ fr.pending

section
variable {s : Builder} {b i n d : Nat} {ts : List Target} {t : Target}

theorem frames_modify {g : Frame → Frame} (d : Nat) (control : List Frame)
    (ext : ∀ fr, control[d]? = some fr → fr.Extends f f (g fr)) (j : Nat) (fr : Frame)
    (at' : control[j]? = some fr) :
    ∃ fr', (control.modify d g)[j]? = some fr' ∧ fr.Extends f f fr' := by
  rw [getElem?_modify, at']
  by_cases here : d = j
  · subst here; exact ⟨g fr, by simp, ext fr at'⟩
  · exact ⟨fr, by simp [here], .refl fr fun _ _ => rfl⟩

theorem Builder.Evolves.modify {t : Builder} (evolves : s.Evolves t) (d : Nat) {g : Frame → Frame}
    (ext : ∀ fr : Frame, fr.Extends t.func t.func (g fr)) :
    s.Evolves { t with control := t.control.modify d g } := by
  refine { evolves with depth := by simp [evolves.depth], frames := fun j fr at' => ?_ }
  obtain ⟨fr', there, first⟩ := evolves.frames j fr at'
  obtain ⟨fr'', there', second⟩ := frames_modify d t.control (fun fr _ => ext fr) j fr' there
  exact ⟨fr'', there', first.trans second⟩

theorem backed_extends (f : Function) (r : EdgeRef) (fr : Frame) :
    fr.Extends f f (fr.backed r) := by
  cases kind : fr.kind with
  | loop header =>
    cases header with
    | none => simp only [Frame.backed, kind]; exact .refl fr fun _ _ => rfl
    | some h =>
      simp only [Frame.backed, kind]
      exact ⟨rfl, rfl, fun _ mem => mem, by rw [kind]; exact ⟨_, rfl, rfl, rfl⟩⟩
  | function | block | ifBlock e ls =>
    simp only [Frame.backed, kind]; exact .refl fr fun _ _ => rfl

theorem pended_extends (f : Function) (p : Pending) (fr : Frame) :
    fr.Extends f f (fr.pended p) where
  result := rfl
  base := rfl
  pending q mem := Array.mem_push_of_mem _ mem
  kind := by
    split
    · next h kind => exact ⟨h, kind, rfl, rfl⟩
    · rfl

section
variable (unknown : Unknown control b i)
include unknown

theorem Unknown.mono : Unknown control b (i + 1) :=
  ⟨fun r mem here => Nat.lt_succ_of_lt (unknown.waiting r mem here),
    fun fr mem h kind r known here => Nat.lt_succ_of_lt (unknown.loops fr mem h kind r known here)⟩

theorem Unknown.backed (d : Nat) : Unknown (control.modify d (Frame.backed ⟨b, i⟩)) b (i + 1) where
  waiting r mem here := by
    rw [flatMap_modify_eq (Frame.backed_waiting _)] at mem
    exact Nat.lt_succ_of_lt (unknown.waiting r mem here)
  loops fr mem h kind r known here := by
    rcases mem_modify_cases mem with ⟨y, old, rfl⟩ | old
    · cases kind' : y.kind with
      | loop header =>
        cases header with
        | none => simp [Frame.backed, kind'] at kind
        | some h' =>
          simp only [Frame.backed, kind', FrameKind.loop.injEq, Option.some.injEq] at kind
          subst kind
          have split : r ∈ h'.edges ∨ r = ⟨b, i⟩ := by
            simpa [LoopHeader.edges, or_assoc] using known
          rcases split with before | rfl
          · exact Nat.lt_succ_of_lt
              (unknown.loops y (mem_of_getElem? old) h' kind' r before here)
          · exact Nat.lt_succ_self i
      | function | block | ifBlock e ls => simp [Frame.backed, kind'] at kind
    · exact Nat.lt_succ_of_lt (unknown.loops fr old h kind r known here)

theorem Unknown.pended {fr : Frame} (at' : control[d]? = some fr) (locals : Array Value)
    (result : Option Value) :
    Unknown (control.modify d (Frame.pended ⟨⟨b, i⟩, locals, result⟩)) b (i + 1) where
  waiting r mem here := by
    rcases mem_cons.1 ((flatMap_modify_perm at' (Frame.pended_waiting _ fr)).mem_iff.1 mem)
      with rfl | old
    · exact Nat.lt_succ_self i
    · exact Nat.lt_succ_of_lt (unknown.waiting r old here)
  loops fr' mem h kind r known here := by
    rcases mem_modify_cases mem with ⟨y, old, rfl⟩ | old
    · exact Nat.lt_succ_of_lt (unknown.loops y (mem_of_getElem? old) h kind r known here)
    · exact Nat.lt_succ_of_lt (unknown.loops fr' old h kind r known here)

end

/-- Frames that were told of other edges still take the edge. -/
theorem Build.Target.Lands.extends (lands : t.Lands s r)
    (frames : ∀ (d : Nat) (fr : Frame),
      s.control[d]? = some fr → ∃ fr', control[d]? = some fr' ∧ fr.Extends s.func s.func fr')
    (headers : control.filterMap Frame.header? = s.control.filterMap Frame.header?) :
    t.Lands { s with control } r := by
  cases t with
  | ret => exact fun e found => headers ▸ lands e found
  | header depth =>
    obtain ⟨fr, h, args, at', kind, edge, passed⟩ := lands
    obtain ⟨fr', at'', ext⟩ := frames depth fr at'
    have kinds := ext.kind
    rw [kind] at kinds
    obtain ⟨h', kind', same, _⟩ := kinds
    exact ⟨fr', h', args, at'', kind', same ▸ edge, passed⟩
  | waiting depth result =>
    obtain ⟨fr, at', waits, yields⟩ := lands
    obtain ⟨fr', at'', ext⟩ := frames depth fr at'
    exact ⟨fr', at'', waits, ext.result ▸ yields⟩

theorem Told.pending_mono {s' : Builder} (told : Told s s' b i ts) {fr : Frame}
    (at' : s.control[d]? = some fr) {p : Pending}
    (mem : p ∈ fr.pending) : ∃ fr', s'.control[d]? = some fr' ∧ p ∈ fr'.pending := by
  obtain ⟨fr', at'', ext⟩ := told.frames d fr at'
  exact ⟨fr', at'', ext.pending p mem⟩

/-- One edge. -/
theorem record_ok (framed : Framed s.func s.localTypes (⟨b, i⟩ :: refs b (i + 1) n) s.control)
    (unknown : Unknown s.control b i)
    (fits : Fits s.func s.localTypes s.locals) (lands : t.Lands s ⟨b, i⟩) :
    ∃ s', record ⟨b, i⟩ t s = .ok ((), s') ∧
      Framed s.func s.localTypes (refs b (i + 1) n) s'.control ∧ Told s s' b i [t] ∧
      s'.control.filterMap Frame.header? = s.control.filterMap Frame.header? := by
  cases t with
  | ret =>
    refine ⟨s, rfl, framed.forget lands, ⟨rfl, rfl, fun d fr at' => ?_, unknown.mono, ?_⟩, rfl⟩
    · exact ⟨fr, at', .refl fr fun _ _ => rfl⟩
    · intro j depth result found
      cases j <;> simp at found
  | header depth =>
    obtain ⟨fr, h, args, at', kind, edge, passed⟩ := lands
    have new : (⟨b, i⟩ : EdgeRef) ∉ h.edges := fun known =>
      Nat.lt_irrefl i (unknown.loops fr (mem_of_getElem? at') h kind ⟨b, i⟩ known rfl)
    refine ⟨{ s with control := s.control.modify depth (Frame.backed ⟨b, i⟩) }, rfl,
      framed.backed at' kind edge passed new, ⟨rfl, by simp, ?_, unknown.backed depth, ?_⟩, ?_⟩
    · exact frames_modify depth s.control fun fr _ => backed_extends s.func _ fr
    · intro j depth result found
      cases j <;> simp at found
    · exact filterMap_modify_eq (Frame.backed_header? _) _ _
  | waiting depth result =>
    obtain ⟨fr, at', waits, yields⟩ := lands
    have new : (⟨b, i⟩ : EdgeRef) ∉ s.control.flatMap Frame.waiting := fun mem =>
      Nat.lt_irrefl i (unknown.waiting ⟨b, i⟩ mem rfl)
    refine ⟨{ s with control := s.control.modify depth (Frame.pended ⟨⟨b, i⟩, s.locals, result⟩) },
      rfl,
      framed.pended at' waits new fits yields, ⟨rfl, by simp, ?_, unknown.pended at' _ _, ?_⟩, ?_⟩
    · exact frames_modify depth s.control fun fr _ => pended_extends s.func _ fr
    · intro j depth' result' found
      cases j with
      | zero =>
        simp only [getElem?_cons_zero, Option.some.injEq, Target.waiting.injEq] at found
        obtain ⟨rfl, rfl⟩ := found
        exact ⟨fr.pended _, by simp [at'], Array.mem_push_self⟩
      | succ j => simp at found
    · exact filterMap_modify_eq (Frame.pended_header? _) _ _

/-- All edges of a block, one after another. Those that lead to no frame come last. -/
theorem recordAll_ok (framed : Framed s.func s.localTypes (refs b i (ts.length + n)) s.control)
    (unknown : Unknown s.control b i)
    (fits : Fits s.func s.localTypes s.locals) (lands : ∀ (j : Nat) (t : Target),
      ts[j]? = some t → t.Lands s ⟨b, i + j⟩) :
    ∃ s', recordAll b i ts s = .ok ((), s') ∧
      Framed s.func s.localTypes (refs b (i + ts.length) n) s'.control ∧ Told s s' b i ts ∧
      s'.control.filterMap Frame.header? = s.control.filterMap Frame.header? := by
  induction ts generalizing s i with
  | nil =>
    refine ⟨s, rfl, by simpa using framed, ⟨rfl, rfl, fun d fr at' => ?_, unknown, ?_⟩, rfl⟩
    · exact ⟨fr, at', .refl fr fun _ _ => rfl⟩
    · intro j depth result found
      simp at found
  | cons t rest ih =>
    have count : (t :: rest).length + n = (rest.length + n) + 1 := by simp; omega
    rw [count, refs_succ] at framed
    obtain ⟨s₁, first, framed₁, told₁, headers₁⟩ := record_ok framed unknown fits (lands 0 t rfl)
    obtain ⟨control, rfl⟩ : ∃ control, s₁ = { s with control } := ⟨s₁.control, told₁.same⟩
    have later : ∀ (j : Nat) (t' : Target), rest[j]? = some t' →
        t'.Lands { s with control } ⟨b, i + 1 + j⟩ := fun j t' at' => by
      have lands' := lands (j + 1) t' (by simpa using at')
      rw [show i + (j + 1) = i + 1 + j by omega] at lands'
      exact lands'.extends told₁.frames headers₁
    obtain ⟨s₂, second, framed₂, told₂, headers₂⟩ := ih (s := { s with control }) framed₁
      (by simpa using told₁.unknown) fits later
    refine ⟨s₂, ?_, ?_, ⟨?_, ?_, ?_, ?_, ?_⟩, headers₂.trans headers₁⟩
    · rw [recordAll, bind_apply _ first]; exact second
    · rw [show i + (t :: rest).length = i + 1 + rest.length by simp; omega]; exact framed₂
    · exact told₂.same
    · exact told₂.depth.trans told₁.depth
    · intro d fr at'
      obtain ⟨fr', at'', ext⟩ := told₁.frames d fr at'
      obtain ⟨fr'', at''', ext'⟩ := told₂.frames d fr' at''
      exact ⟨fr'', at''', ext.trans ext'⟩
    · rw [show i + (t :: rest).length = i + 1 + rest.length by simp; omega]; exact told₂.unknown
    · intro j depth result found
      cases j with
      | zero =>
        obtain ⟨fr, at', mem⟩ := told₁.pending 0 depth result (by simpa using found)
        exact told₂.pending_mono at' mem
      | succ j =>
        obtain ⟨fr, at', mem⟩ := told₂.pending j depth result (by simpa using found)
        rw [show i + 1 + j = i + (j + 1) by omega] at mem
        exact ⟨fr, at', mem⟩

end

/-! ### Deciding where edges lead -/

namespace Builder

/-- With a new block that nothing is known of yet. -/
def spare (s : Builder) : Builder := { s with func := s.func.newBlock.2 }

/-- A block that is there, is empty and has not been used for anything. -/
structure Unused (s : Builder) (c : Nat) : Prop where
  lt : c < s.func.blocks.size
  empty : s.func.block c = {}
  ne_entry : c ≠ 0
  ne_current : s.current ≠ some c
  ne_header : c ∉ s.control.filterMap Frame.header?

variable {s : Builder}

theorem Sound.spare (sound : s.Sound) : s.spare.Sound :=
  sound.adds sound.func.newBlock (newBlock_adds s.func) (fun r => by simp [Function.edgeAt?])
    fun b live => by simpa using (sound.current b live).2

/-- More empty blocks, and nothing else. -/
structure Padded (s s' : Builder) : Prop where
  same : s' = { s with func := s'.func }
  sig : s'.func.sig = s.func.sig
  values : s'.func.values = s.func.values
  block : ∀ c, s'.func.block c = s.func.block c
  sound : s'.Sound
  evolves : s.Evolves s'

theorem Sound.padded (sound : s.Sound) : s.Padded s where
  same := rfl
  sig := rfl
  values := rfl
  block _ := rfl
  sound := sound
  evolves := .same rfl rfl rfl

theorem Padded.trans {t u : Builder} (first : s.Padded t) (second : t.Padded u) : s.Padded u where
  same := by rw [second.same, first.same]
  sig := second.sig.trans first.sig
  values := second.values.trans first.values
  block c := (second.block c).trans (first.block c)
  sound := second.sound
  evolves := first.evolves.trans first.sound.func second.sound.func second.evolves

theorem Sound.padded_spare (sound : s.Sound) : s.Padded s.spare where
  same := rfl
  sig := rfl
  values := rfl
  block c := by simp [Builder.spare]
  sound := sound.spare
  evolves := .of_adds sound (newBlock_adds s.func) rfl rfl

theorem Sound.header_lt (sound : s.Sound) (mem : c ∈ s.control.filterMap Frame.header?) :
    c < s.func.blocks.size := by
  obtain ⟨fr, inside, is⟩ := mem_filterMap.1 mem
  unfold Frame.header? at is
  split at is
  · next h kind => cases is; exact (sound.control.loops fr inside h kind).lt
  · cases is

theorem Sound.spare_new (sound : s.Sound) : s.spare.Unused s.func.blocks.size where
  lt := by simp [Builder.spare]
  empty := by simp [Builder.spare, s.func.block_of_le (Nat.le_refl _)]
  ne_entry := Nat.ne_of_gt sound.func.entry
  ne_current live := Nat.lt_irrefl _ (sound.current _ live).1
  ne_header mem := Nat.lt_irrefl _ (sound.header_lt mem)

theorem Unused.spare (unused : s.Unused c) : s.spare.Unused c :=
  { unused with
    lt := by have := unused.lt; simp [Builder.spare]; omega
    empty := by simpa [Builder.spare] using unused.empty }

end Builder

/-- The topmost operand, where a value of the given type is expected. -/
def Peeked (s : Builder) (ty : Option ValType) (r : Option Value) : Prop :=
  (ty = none ∧ r = none) ∨ ∃ ty' w rest, ty = some ty' ∧ r = some w ∧ s.stack = w :: rest

/-- Where the edge to the frame at `depth` leads; `x` is the block in which edges leave the
function. -/
def Decided (s : Builder) (x : Option Nat) (depth : Nat) (d : Option Edge) (t : Target) : Prop :=
  ∃ fr, s.control[depth]? = some fr ∧
    match fr.kind with
    | .function => ∃ c, x = some c ∧ d = some ⟨c, #[]⟩ ∧ t = .ret
    | .loop (some h) => d = some ⟨h.block, s.locals⟩ ∧ t = .header depth
    | .loop none => False
    | .block | .ifBlock _ _ => d = none ∧ ∃ r, t = .waiting depth r ∧ Peeked s fr.result r

section
variable {s s' : Builder} {depth : Nat} {d : Option Edge} {t : Target} {x x' : Option Nat}

theorem edgeTo_ok (sound : s.Sound) (unused : ∀ c, x = some c → s.Unused c)
    (h : edgeTo depth x s = .ok ((d, t, x'), s')) :
    s.Padded s' ∧ (∀ c, x' = some c → s'.Unused c) ∧ (∀ c, x = some c → x' = some c) ∧
      Decided s' x' depth d t ∧
      ((x' = x ∧ s' = s) ∨ ∃ fr, s.control[depth]? = some fr ∧ fr.kind = .function) := by
  obtain ⟨fr, s₁, found, rest⟩ := bind_ok h
  obtain ⟨at', rfl⟩ := frameAt_ok found
  cases kind : fr.kind with
  | function =>
    cases x with
    | none =>
      simp only [kind, bind_apply _ newBlock_apply, pure_apply] at rest
      cases rest
      exact ⟨sound.padded_spare, fun c is => by cases is; exact sound.spare_new,
        (fun c is => by cases is),
        ⟨fr, at', by rw [kind]; exact ⟨_, rfl, rfl, rfl⟩⟩, .inr ⟨fr, at', kind⟩⟩
    | some c =>
      simp only [kind, bind_apply _ (pure_apply c), pure_apply] at rest
      cases rest
      exact ⟨sound.padded, unused, fun _ is => is,
        ⟨fr, at', by rw [kind]; exact ⟨c, rfl, rfl, rfl⟩⟩, .inl ⟨rfl, rfl⟩⟩
  | loop header =>
    cases header with
    | none => simp [kind] at rest
    | some head =>
      simp only [kind, bind_apply _ get_apply, pure_apply] at rest
      cases rest
      exact ⟨sound.padded, unused, fun _ is => is, ⟨fr, at', by rw [kind]; exact ⟨rfl, rfl⟩⟩,
        .inl ⟨rfl, rfl⟩⟩
  | block | ifBlock e ls =>
    simp only [kind] at rest
    obtain ⟨r, s₂, peeked, last⟩ := bind_ok rest
    obtain ⟨rfl, is⟩ := peekResult_ok peeked
    simp only [pure_apply] at last
    cases last
    exact ⟨sound.padded, unused, fun _ is => is, ⟨fr, at', by rw [kind]; exact ⟨rfl, r, rfl, is⟩⟩,
      .inl ⟨rfl, rfl⟩⟩

theorem Decided.later (decided : Decided s x depth d t) (same : ∀ c, x = some c → x' = some c) :
    Decided s x' depth d t := by
  obtain ⟨fr, at', rest⟩ := decided
  refine ⟨fr, at', ?_⟩
  split at rest
  · obtain ⟨c, is, rest⟩ := rest
    exact ⟨c, same c is, rest⟩
  · exact rest
  · exact rest
  · exact rest
  · exact rest

theorem Decided.padded {u : Builder} (decided : Decided s x depth d t) (padded : s.Padded u) :
    Decided u x depth d t := by
  obtain ⟨func, rfl⟩ : ∃ func, u = { s with func } := ⟨u.func, padded.same⟩
  exact decided

/-- The edges of a table. At most one block is new: the one in which edges leave the function. -/
theorem tableEdges_ok {depths : List Nat} {edges : List (Option Edge × Target)} (sound : s.Sound)
    (unused : ∀ c, x = some c → s.Unused c) (h : tableEdges depths x s = .ok ((edges, x'), s')) :
    s.Padded s' ∧ (∀ c, x' = some c → s'.Unused c) ∧ (∀ c, x = some c → x' = some c) ∧
      List.Forall₂ (fun depth e => Decided s' x' depth e.1 e.2) depths edges := by
  induction depths generalizing s x edges with
  | nil =>
    simp only [tableEdges, pure_apply] at h
    cases h
    exact ⟨sound.padded, unused, fun _ is => is, .nil⟩
  | cons depth rest ih =>
    obtain ⟨⟨d, t, x₁⟩, s₁, first, more⟩ := bind_ok h
    obtain ⟨⟨edges', x₂⟩, s₂, second, last⟩ := bind_ok more
    simp only [pure_apply] at last
    cases last
    obtain ⟨padded, unused₁, kept, decided, -⟩ := edgeTo_ok sound unused first
    obtain ⟨padded', unused₂, same, all⟩ := ih padded.sound unused₁ second
    exact ⟨padded.trans padded', unused₂, fun c is => same c (kept c is),
      .cons ((decided.later same).padded padded') all⟩

end

/-! ### Whole branches -/

theorem Framed.forget_all {types : Array ValType} {extra : List EdgeRef}
    (framed : Framed f types extra control)
    (apart : ∀ r ∈ extra, ∀ e, f.edge? r = some e → e.block ∉ control.filterMap Frame.header?) :
    Framed f types [] control := by
  induction extra with
  | nil => exact framed
  | cons r rest ih =>
    exact ih (framed.forget (apart r mem_cons_self))
      fun r' mem => apart r' (mem_cons_of_mem r mem)

namespace Builder
variable {s : Builder} {c : Nat} {exit : Exit}

variable (sound : s.Sound)
include sound

theorem Sound.enter (lt : c < s.func.blocks.size)
    (unleft : (s.func.block c).leave = none) : ({ s with current := some c } : Builder).Sound :=
  { sound with current := fun b live => by cases live; exact ⟨lt, unleft⟩ }

theorem Sound.locals_left (live : s.current = some c) :
    Fits (s.left c exit).func s.localTypes s.locals :=
  have adds : s.func.Adds (s.left c exit).func := left_adds (sound.current c live).2
  sound.locals.mono adds.values adds.types

/-- A block is left by an exit whose edges concern no frame. -/
theorem Sound.leave (live : s.current = some c)
    (apart : ∀ e, some e ∈ exit.edges → e.block < s.func.blocks.size ∧ e.block ∉
      s.control.filterMap Frame.header?) :
    (s.left c exit).Sound where
  func := left_sound sound.func fun e mem => (apart e mem).1
  current := nofun
  locals := sound.locals_left live
  stack := sound.stack
  control := by
    refine (sound.framed_left live).forget_all fun r mem e found => ?_
    have at' := edgeAt?_of_edge? found
    rw [left_edgeAt? (sound.current c live).1, if_pos (mem_refs.1 mem).1] at at'
    exact (apart e (mem_of_getElem? at')).2

theorem left_evolves (live : s.current = some c) (exit : Exit) : s.Evolves (s.left c exit) :=
  .of_adds sound (left_adds (sound.current c live).2) rfl rfl

end Builder

/-- Branches to the frame go to its end. -/
def Frame.Forward (fr : Frame) : Prop := ∀ h, fr.kind ≠ .loop h

/-- Edges to the end of a frame carry what the frame yields. -/
def Topped (s : Builder) (depth : Nat) : Prop :=
  ∀ b fr r, s.current = some b → s.control[depth]? = some fr → fr.Forward → Peeked s fr.result r →
    Yields s.func fr.result r

/-- What a branch leaves behind: block `b` is ended by `exit`, every frame knows of the edges to it,
and the block `x` in which edges leave the function is filled. -/
structure Branched (s s' : Builder) (b : Nat) (exit : Exit) (ts : List Target) (x : Option Nat) :
    Prop where
  sound : s'.Sound
  evolves : s.Evolves s'
  dead : s'.current = none
  stack : s'.stack = s.stack
  locals : s'.locals = s.locals
  adds : (s.left b exit).func.Adds s'.func
  pending : ∀ (j depth : Nat) (result : Option Value), ts[j]? = some (.waiting depth result) →
    ∃ fr : Frame, s'.control[depth]? = some fr ∧ ⟨⟨b, j⟩, s.locals, result⟩ ∈ fr.pending
  exits : ∀ c, x = some c → (s'.func.block c).steps = #[] ∧
    ∃ r loc, (s'.func.block c).leave = some ⟨.ret r, loc⟩ ∧ Peeked s s.func.sig.result r
  size : s'.func.blocks.size = s.func.blocks.size
  others : ∀ c, c ≠ b → x ≠ some c → s'.func.block c = s.func.block c
  headers : s'.control.filterMap Frame.header? = s.control.filterMap Frame.header?

section
variable {s s₂ s' : Builder} {b n : Nat} {exit : Exit} {ts : List Target} {x : Option Nat}

theorem fillExit_branched (told : Branched s s₂ b exit ts none)
    (unused : ∀ c, x = some c → s.Unused c) (live : s.current = some b)
    (h : fillExit x s₂ = .ok ((), s')) : Branched s s' b exit ts x := by
  cases x with
  | none =>
    simp only [fillExit, pure_apply] at h
    cases h
    exact { told with others := fun c ne _ => told.others c ne (by simp) }
  | some c =>
    have spare := unused c rfl
    have other : c ≠ b := by rintro rfl; exact spare.ne_current live
    have block : s₂.func.block c = {} := (told.others c other (by simp)).trans spare.empty
    have lt : c < s₂.func.blocks.size := by rw [told.size]; exact spare.lt
    simp only [fillExit, bind_apply _ get_apply] at h
    obtain ⟨r, s₃, peeked, rest⟩ := bind_ok h
    obtain ⟨rfl, is⟩ := peekResult_ok peeked
    have entered : ({ s₃ with current := some c } : Builder).Sound :=
      told.sound.enter lt (by simp [block])
    rw [bind_apply _ enter_apply, bind_apply _ (leave_apply (b := c) rfl _)] at rest
    cases rest
    have left : s₃.Evolves (({ s₃ with current := some c } : Builder).left c (.ret r)) :=
      .of_adds told.sound (Builder.left_adds (s := { s₃ with current := some c }) (by simp [block]))
        rfl rfl
    have sound : (({ s₃ with current := some c } : Builder).left c (.ret r)).Sound :=
      entered.leave rfl fun e mem => by cases mem
    exact
      { sound := sound
        evolves := told.evolves.trans told.sound.func sound.func left
        dead := rfl
        stack := told.stack
        locals := told.locals
        adds := told.adds.trans
          (Builder.left_adds (s := { s₃ with current := some c }) (by simp [block]))
        pending := told.pending
        exits := fun c' same => by
          cases same
          refine ⟨?_, r, _, Builder.left_leave (s := { s₃ with current := some c }) lt, ?_⟩
          · simp [Builder.left, block_modifyBlock, block, lt]
          · rw [told.evolves.grows.sig] at is
            rcases is with none | ⟨ty, w, rest, rty, rfl, stack⟩
            · exact .inl none
            · exact .inr ⟨ty, w, rest, rty, rfl, by rw [← told.stack]; exact stack⟩
        size := by simpa [Builder.left] using told.size
        others := fun c' ne apart => by
          rw [Builder.left_block (s := { s₃ with current := some c }) fun same =>
            apart (by rw [same])]
          exact told.others c' ne (by simp)
        headers := told.headers }

theorem forall₂_getElem? {α β : Type} {R : α → β → Prop} {as : List α} {bs : List β}
    (h : List.Forall₂ R as bs) {b : β}
    (is : bs[i]? = some b) : ∃ a, as[i]? = some a ∧ R a b := by
  obtain ⟨lt, rfl⟩ := List.getElem?_eq_some_iff.1 is
  have lt' := h.length_eq ▸ lt
  exact ⟨as[i], getElem?_eq_getElem lt', h.get lt' lt⟩

/-- A block is ended, and the frames are told where its edges lead. Edges after those for frames
lead to new blocks. -/
theorem recordAll_branched (ds es : List (Option Edge)) (sound : s.Sound)
    (live : s.current = some b) (edges : exit.edges = ds ++ es)
    (decided : List.Forall₂ (fun d t => ∃ depth, Decided s x depth d t ∧ Topped s depth) ds ts)
    (rest : ∀ d ∈ es, ∃ c, d = some ⟨c, #[]⟩ ∧ s.Unused c) (unused : ∀ c, x = some c → s.Unused c)
    (told : recordAll b 0 ts (s.left b exit) = .ok ((), s₂)) : Branched s s₂ b exit ts none := by
  obtain ⟨lt, unleft⟩ := sound.current b live
  have func : (s.left b exit).func.Sound := Builder.left_sound sound.func fun e mem => by
    rw [edges] at mem
    rcases mem_append.1 mem with early | late
    · obtain ⟨i, here⟩ := mem_iff_getElem?.1 early
      obtain ⟨t, -, depth, ⟨fr, at', rest⟩, -⟩ := forall₂_getElem? decided.flip here
      split at rest
      · obtain ⟨c, is, same, -⟩ := rest
        cases same
        exact (unused c is).lt
      · next h kind =>
        cases rest.1
        exact (sound.control.loops fr (mem_of_getElem? at') h kind).lt
      · exact rest.elim
      · cases rest.1
      · cases rest.1
    · obtain ⟨c, same, spare⟩ := rest _ late
      cases same
      exact spare.lt
  have framed : Framed (s.left b exit).func s.localTypes (refs b 0 exit.edges.length) s.control :=
    sound.framed_left live
  rw [edges, length_append, decided.length_eq] at framed
  have unknown : Unknown s.control b 0 :=
    ⟨fun r mem here => absurd here ((sound.known_ne live).1 r mem),
      fun fr mem h kind r known here => absurd here ((sound.known_ne live).2 fr mem h kind r known)⟩
  have lands : ∀ (j : Nat) (t : Target), ts[j]? = some t → t.Lands (s.left b exit) ⟨b, 0 + j⟩ := by
    intro j t at'
    obtain ⟨d, edge, depth, ⟨fr, found, where'⟩, topped⟩ := forall₂_getElem? decided at'
    have edge : exit.edges[j]? = some d := by
      rw [edges, getElem?_append_left (List.getElem?_eq_some_iff.1 edge).1, edge]
    rw [Nat.zero_add]
    have is : (s.left b exit).func.edge? ⟨b, j⟩ = d := by simp [Builder.left_edge? lt, edge]
    split at where'
    · obtain ⟨c, set, rfl, rfl⟩ := where'
      intro e into
      rw [is] at into
      cases into
      exact (unused c set).ne_header
    · next h kind =>
      obtain ⟨rfl, rfl⟩ := where'
      exact ⟨fr, h, s.locals, found, kind, is, sound.locals_left live⟩
    · exact where'.elim
    all_goals
      next kind =>
      obtain ⟨rfl, r, rfl, peeked⟩ := where'
      refine ⟨fr, found, by simp [Builder.left_edgeAt? lt, edge], ?_⟩
      exact topped b _ _ live found (fun h is => by rw [kind] at is; cases is) peeked
  obtain ⟨s₃, told', framed₃, facts, headers⟩ :=
    recordAll_ok (s := s.left b exit) framed unknown (sound.locals_left live) lands
  rw [told] at told'
  cases told'
  obtain ⟨control, rfl⟩ : ∃ control, s₂ = { s.left b exit with control } := ⟨s₂.control, facts.same⟩
  have known : Framed (s.left b exit).func s.localTypes [] control :=
    framed₃.forget_all fun r mem e into => by
    obtain ⟨here, from', upTo⟩ := mem_refs.1 mem
    obtain ⟨c, k⟩ := r
    subst here
    rw [Builder.left_edge? lt] at into
    have size := decided.length_eq
    rw [edges, getElem?_append_right (by simpa [size] using from')] at into
    obtain ⟨d, edge⟩ : ∃ d, es[k - ds.length]? = some d :=
      ⟨_, getElem?_eq_getElem (by dsimp only at from' upTo; omega)⟩
    obtain ⟨c', same, spare⟩ := rest d (mem_of_getElem? edge)
    rw [edge, same] at into
    cases into
    rw [headers]
    exact spare.ne_header
  have sound₂ : ({ s.left b exit with control } : Builder).Sound :=
    { func := func
      current := nofun
      locals := sound.locals_left live
      stack := sound.stack
      control := known }
  exact
    { sound := sound₂
      evolves :=
        { grows := (Builder.left_adds unleft).grows
          types := rfl
          depth := facts.depth
          frames := fun d fr at' => by
            obtain ⟨fr₁, at₁, ext₁⟩ := (Builder.left_evolves sound live exit).frames d fr at'
            obtain ⟨fr₂, at₂, ext₂⟩ := facts.frames d fr₁ at₁
            exact ⟨fr₂, at₂, ext₁.trans ext₂⟩ }
      dead := rfl
      stack := rfl
      locals := rfl
      adds := .refl _
      pending := fun j depth result at' => by
        have told := facts.pending j depth result at'
        rw [Nat.zero_add] at told
        exact told
      exits := nofun
      size := by simp [Builder.left]
      others := fun c ne _ => Builder.left_block ne
      headers := headers }

end

/-! ### The operators -/

section
variable {s s' : Builder} {b depth : Nat} {rest : List Value}

theorem Builder.Sound.below {taken : List Value} (sound : s.Sound)
    (stack : s.stack = taken ++ rest) :
    ({ s with stack := rest } : Builder).Sound :=
  { sound with stack := fun w mem => sound.stack w (by rw [stack]; exact mem_append_right _ mem) }

theorem Builder.Sound.pop {v : Value} (sound : s.Sound) (stack : s.stack = v :: rest) :
    ({ s with stack := rest } : Builder).Sound :=
  sound.below (show s.stack = [v] ++ rest from stack)

theorem ret_ok (live : s.current = some b) (h : Build.ret s = .ok ((), s')) :
    ∃ r rest, Peeked s s.func.sig.result r ∧ s.stack = r.toList ++ rest ∧
      s' = ({ s with stack := rest } : Builder).left b (.ret r) := by
  simp only [Build.ret, bind_apply _ get_apply] at h
  obtain ⟨r, s₁, popped, last⟩ := bind_ok h
  rcases popResult_ok popped with ⟨is, rfl, rfl⟩ | ⟨ty, w, rest, is, rfl, stack, rfl⟩
  · rw [bind_apply _ (leave_apply live _)] at last
    cases last
    exact ⟨none, _, .inl ⟨is, rfl⟩, rfl, rfl⟩
  · have live : ({ s with stack := rest } : Builder).current = some b := live
    rw [bind_apply _ (leave_apply live _)] at last
    cases last
    exact ⟨some w, rest, .inr ⟨ty, w, rest, is, rfl, stack⟩, stack, rfl⟩

theorem branch_ok (sound : s.Sound) (live : s.current = some b) (topped : Topped s depth)
    (h : Build.branch depth s = .ok ((), s')) : ∃ fr, s.control[depth]? = some fr ∧
      ((fr.kind = .function ∧ Build.ret s = .ok ((), s')) ∨ ∃ d t,
        fr.kind ≠ .function ∧ Decided s none depth d t ∧
          Branched s s' b (.jump d) [t] none) := by
  obtain ⟨fr, s₁, found, rest⟩ := bind_ok h
  obtain ⟨at', rfl⟩ := frameAt_ok found
  refine ⟨fr, at', ?_⟩
  split at rest
  · next kind => exact .inl ⟨kind, rest⟩
  · next kind =>
    obtain ⟨⟨d, t, x⟩, s₂, first, last⟩ := bind_ok rest
    obtain ⟨-, -, -, decided, kept⟩ := edgeTo_ok sound (fun c is => by cases is) first
    obtain ⟨rfl, rfl⟩ : x = none ∧ s₂ = s₁ := kept.resolve_right fun ⟨fr', at'', function⟩ => by
      rw [at'] at at''
      cases at''
      exact kind function
    dsimp only at last
    rw [bind_apply _ (leave_apply live _)] at last
    refine .inr ⟨d, t, kind, decided,
      recordAll_branched [d] [] sound live rfl (.cons ⟨depth, decided, topped⟩ .nil)
      nofun nofun ?_⟩
    rw [recordAll, bind_apply _ last]; rfl

theorem Topped.padded {t : Builder} (topped : Topped s depth) (padded : s.Padded t) :
    Topped t depth := by
  intro b fr r live at' forward peeked
  obtain ⟨func, rfl⟩ : ∃ func, t = { s with func } := ⟨t.func, padded.same⟩
  exact (topped b fr r live at' forward peeked).mono (Nat.le_of_eq (by rw [padded.values]))
    fun v _ => by simp [Function.valueTy, show func.values = s.func.values from padded.values]

/-- A branch that may be taken ends the block, and goes on in a new one. -/
theorem branchIf_ok {cond : Value} (sound : s.Sound) (live : s.current = some b)
    (stack : s.stack = cond :: rest)
    (topped : Topped { s with stack := rest } depth) (h : branchIf depth s = .ok ((), s')) :
    ∃ t₀ next d t x t₁, ({ s with stack := rest } : Builder).Padded t₀ ∧ t₀.Unused next ∧
      (∀ c, x = some c → t₀.Unused c ∧ c ≠ next) ∧ Decided t₀ x depth d t ∧
      Branched t₀ t₁ b (.branch cond d (some ⟨next, #[]⟩)) [t] x ∧
      s' = { t₁ with current := some next } := by
  obtain ⟨⟨d, t, x⟩, s₂, first, afterEdge⟩ := bind_ok (after_pop stack h)
  dsimp only at afterEdge
  obtain ⟨padded, unused, -, decided, -⟩ :=
    edgeTo_ok (sound.pop stack) (fun c is => by cases is) first
  rw [bind_apply _ newBlock_apply] at afterEdge
  have padded' := padded.trans padded.sound.padded_spare
  have live' : s₂.spare.current = some b := by rw [padded'.same]; exact live
  have next := padded.sound.spare_new
  have decided' : Decided s₂.spare x depth d t := decided
  have tailed := bind_apply (fun b => do
    record ⟨b, 0⟩ t; fillExit x; enter s₂.func.blocks.size)
    (leave_apply live' (.branch cond d (some ⟨s₂.func.blocks.size, #[]⟩)))
  obtain ⟨⟨⟩, s₃, told, afterTold⟩ := bind_ok (tailed.symm.trans afterEdge)
  obtain ⟨⟨⟩, s₄, filled, last⟩ := bind_ok afterTold
  rw [enter_apply] at last
  cases last
  have apart : ∀ c, x = some c → s₂.spare.Unused c ∧ c ≠ s₂.func.blocks.size := fun c is =>
    ⟨(unused c is).spare, Nat.ne_of_lt (unused c is).lt⟩
  refine ⟨s₂.spare, s₂.func.blocks.size, d, t, x, s₄, padded', next, apart, decided', ?_, rfl⟩
  refine fillExit_branched
    (recordAll_branched [d] [some ⟨s₂.func.blocks.size, #[]⟩] padded'.sound live' rfl
    (.cons ⟨depth, decided', topped.padded padded'⟩ .nil) (fun e mem => ?_)
      (fun c is => (apart c is).1) ?_)
    (fun c is => (apart c is).1) live' filled
  · exact ⟨_, mem_singleton.1 mem, next⟩
  · rw [recordAll, bind_apply _ told]; rfl

theorem branchTable_ok {depths : Array Nat} {default : Nat} {index : Value} (sound : s.Sound)
    (live : s.current = some b)
    (stack : s.stack = index :: rest)
    (topped : ∀ depth ∈ depths.toList ++ [default], Topped { s with stack := rest } depth)
    (h : branchTable depths default s = .ok ((), s')) :
    ∃ t₀ edges d t x, ({ s with stack := rest } : Builder).Padded t₀ ∧
      (∀ c, x = some c → t₀.Unused c) ∧
      List.Forall₂ (fun depth e => Decided t₀ x depth e.1 e.2) (depths.toList ++ [default])
        (edges ++ [(d, t)]) ∧
      Branched t₀ s' b (.table index (edges.map (·.1)).toArray d) (edges.map (·.2) ++ [t]) x := by
  obtain ⟨⟨edges, x₁⟩, s₂, first, afterEdges⟩ := bind_ok (after_pop stack h)
  dsimp only at afterEdges
  obtain ⟨⟨d, t, x⟩, s₃, second, afterLast⟩ := bind_ok afterEdges
  dsimp only at afterLast
  obtain ⟨padded₁, unused₁, -, all⟩ :=
    tableEdges_ok (sound.pop stack) (fun c is => by cases is) first
  obtain ⟨padded₂, unused, same, decided, -⟩ := edgeTo_ok padded₁.sound unused₁ second
  have padded := padded₁.trans padded₂
  have decisions : List.Forall₂ (fun depth e => Decided s₃ x depth e.1 e.2)
      (depths.toList ++ [default]) (edges ++ [(d, t)]) :=
    rel_append (all.imp fun _ _ decided => (decided.later same).padded padded₂) (.cons decided .nil)
  have live' : s₃.current = some b := by rw [padded.same]; exact live
  rw [bind_apply _ (leave_apply live' _)] at afterLast
  obtain ⟨⟨⟩, s₄, told, filled⟩ := bind_ok afterLast
  refine ⟨s₃, edges, d, t, x, padded, unused, decisions, ?_⟩
  have goals : edges.map (·.2) ++ [t] = (edges ++ [(d, t)]).map (·.2) := by simp
  rw [goals] at told ⊢
  refine fillExit_branched
    (recordAll_branched ((edges ++ [(d, t)]).map (·.1)) [] padded.sound live' (by simp [Exit.edges]) ?_
    nofun unused told) unused live' filled
  rw [forall₂_map_left_iff, forall₂_map_right_iff, forall₂_same]
  intro e mem
  obtain ⟨i, at'⟩ := mem_iff_getElem?.1 mem
  obtain ⟨depth, here, decided⟩ := forall₂_getElem? decisions at'
  exact ⟨depth, decided, (topped depth (mem_of_getElem? here)).padded padded⟩

end
end Wasmill.Ssa
