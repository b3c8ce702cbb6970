import Wasmill.Code.Lower
import Wasmill.Code.Stub
import Wasmill.Proofs.Code.Assembly
import Wasmill.Proofs.Steps

/-! What chunks are made of.

A chunk is its lines: the bytes of their instructions, and for every kind of thing that has to be
known about an instruction the list of the lines that have it, in order. -/
namespace Wasmill.Code
open Ssa List Steps

/-! ### What lines say -/

def callSite? : Nat × Line → Option CallSite
  | (o, line) => line.calls.map fun (callee, bytecode) =>
    { offset := o, patchAt := o + Chunk.firstOperand, returnsTo := o + line.size, bytecode, callee }

def stubRef? : Nat × Line → Option (Nat × StubKind)
  | (o, line) => line.instr.stub?.map fun (place, kind) => (o + place, kind)

def symbolRef? : Nat × Line → Option (Nat × Symbol)
  | (o, line) => line.symbol.map fun symbol => (o + Chunk.firstOperand, symbol)

/-- The operand for one symbol. -/
def symbolPlace? (symbol : Symbol) : Nat × Line → Option Nat
  | (o, line) => if line.symbol = some symbol then some (o + Chunk.firstOperand) else none

def trapSite? : Nat × Line → Option Site
  | (o, line) => line.traps.map fun bytecode => ⟨o, bytecode⟩

/-- The chunk is these lines. -/
structure Chunk.MadeOf (c : Chunk) (lines : List Line) : Prop where
  code : c.code.data.toList = lines.flatMap (·.instr.encode)
  callSites : c.callSites.toList = (located 0 lines).filterMap callSite?
  stubRefs : c.stubRefs.toList = (located 0 lines).filterMap stubRef?
  symbolRefs : c.symbolRefs.toList = (located 0 lines).filterMap symbolRef?
  trapSites : c.trapSites.toList = (located 0 lines).filterMap trapSite?
  indirectSigs : ∀ sig, sig ∈ c.indirectSigs ↔ ∃ line ∈ lines, line.expects = some sig

namespace Chunk
variable {c : Chunk} {lines : List Line} {code : ByteArray} {bytes : List UInt8}

theorem appendBytes_toList : (appendBytes code bytes).data.toList = code.data.toList ++ bytes := by
  induction bytes generalizing code with
  | nil => simp [appendBytes]
  | cons b bytes ih =>
    have push : (code.push b).data.toList = code.data.toList ++ [b] := Array.toList_push
    rw [appendBytes, foldl_cons, ← appendBytes, ih, push]
    simp

theorem appendBytes_size : (appendBytes code bytes).size = code.size + bytes.length := by
  rw [← ByteArray.size_data, ← ByteArray.size_data, ← Array.length_toList, appendBytes_toList,
    length_append, Array.length_toList]

theorem MadeOf.size (h : c.MadeOf lines) : c.code.size = extent lines := by
  have : c.code.data.toList.length = c.code.size := rfl
  rw [← this, h.code, ← content_unfilled 0, content_length]

theorem MadeOf.add (h : c.MadeOf lines) (line : Line) : (c.add line).MadeOf (lines ++ [line]) := by
  have size := h.size
  have grown : (appendBytes c.code line.instr.encode).size = extent lines + line.size := by
    rw [appendBytes_size, size]
    rfl
  have last : located 0 (lines ++ [line]) = located 0 lines ++ [(extent lines, line)] := by
    rw [located_append, Nat.zero_add]
    rfl
  refine ⟨?_, ?_, ?_, ?_, ?_, ?_⟩
  · simp only [Chunk.add, appendBytes_toList, h.code, flatMap_append, flatMap_singleton]
  · simp only [Chunk.add, last, filterMap_append, ← h.callSites, size, grown]
    cases is : line.calls <;> simp [callSite?, is]
  · simp only [Chunk.add, last, filterMap_append, ← h.stubRefs, size]
    cases is : line.instr.stub? <;> simp [stubRef?, is]
  · simp only [Chunk.add, last, filterMap_append, ← h.symbolRefs, size]
    cases is : line.symbol <;> simp [symbolRef?, is]
  · simp only [Chunk.add, last, filterMap_append, ← h.trapSites, size]
    cases is : line.traps <;> simp [trapSite?, is]
  · intro sig
    have were := h.indirectSigs sig
    simp only [Chunk.add, mem_append, mem_singleton, or_and_right, exists_or, ← were,
      exists_eq_left]
    cases is : line.expects with
    | none => simp
    | some new =>
      by_cases seen : c.indirectSigs.contains new = true
      · simp only [seen, if_true, Option.some.injEq]
        have : new ∈ c.indirectSigs := Array.contains_iff_mem.1 seen
        constructor
        · exact .inl
        · rintro (mem | rfl)
          · exact mem
          · exact this
      · simp only [seen]
        simp [eq_comm]

theorem ofLines_madeOf (lines : List Line) : (ofLines lines).MadeOf lines := by
  have run : ∀ (rest done : List Line) (c : Chunk), c.MadeOf done →
      (rest.foldl add c).MadeOf (done ++ rest) := by
    intro rest
    induction rest with
    | nil => intro done c h; simpa using h
    | cons line rest ih =>
      intro done c h
      have := ih (done ++ [line]) (c.add line) (h.add line)
      simpa using this
  exact run lines [] {} ⟨rfl, rfl, rfl, rfl, rfl, by simp⟩

end Chunk

/-! ### Lines that say enough -/

namespace Instr

def isCall : Instr → Bool
  | call _ _ _ => true
  | _ => false

def hasSymbol : Instr → Bool
  | checkInterrupt _ _ | memorySize _ _ | memoryGrow _ _ _ | exit _ _ _ _ _ => true
  | _ => false

def isFar : Instr → Bool
  | jumpFar _ => true
  | _ => false

theorem mem_holes {i : Instr} {h : Nat} :
    h ∈ i.holes ↔ h = Chunk.firstOperand ∧ (i.isCall ∨ i.hasSymbol ∨ i.isFar) ∨
      ∃ kind, i.stub? = some (h, kind) := by
  cases i <;> simp [holes, isCall, hasSymbol, isFar, stub?, Chunk.firstOperand, eq_comm]

end Instr

/-- What a line says fits its instruction: it names the callee of every call and the symbol of every
instruction that has one, and it is no far jump. -/
structure Line.Plain (line : Line) : Prop where
  calls : line.calls.isSome = line.instr.isCall
  symbol : line.symbol.isSome = line.instr.hasSymbol
  near : line.instr.isFar = false

namespace Lower
variable {f : Function} {s : Step} {rel rel' : Nat → Int} {b : Block} {line line' : Line}

theorem step_plain (f : Function) (s : Step) : (step f s).Plain := by
  unfold step
  constructor <;> cases s.inst <;> rfl

/-! ### How blocks end -/

/-- The assignments that go with an edge. -/
def moves (f : Function) (e : Edge) : List (Nat × Nat) :=
  (((f.block e.block).params.toList.map (slot f)).zip (e.args.toList.map (slot f))).filter
    fun (dst, src) => dst ≠ src

/-- Where an edge leads. -/
def destOf (f : Function) (rel : Nat → Int) (e : Edge) : Dest :=
  { rel := rel e.block, moves := moves f e }

/-- The edge does not lead too far. -/
def Near (rel : Nat → Int) (e : Edge) : Prop := -0x80000000 ≤ rel e.block ∧ rel e.block < 0x80000000

theorem dest_ok {e : Option Edge} {d : Dest} (is : dest f rel e = .ok d) :
    ∃ edge, e = some edge ∧ Near rel edge ∧ d = destOf f rel edge := by
  cases e with
  | none => cases is
  | some edge =>
    simp only [dest] at is
    split at is
    · cases is
    · split at is
      · cases is
      · cases is
        exact ⟨edge, rfl, ⟨by omega, by omega⟩, rfl⟩

theorem dests_ok {es : List (Option Edge)} {ds : List Dest} (is : es.mapM (dest f rel) = .ok ds) :
    ∃ edges : List Edge, es = edges.map some ∧ (∀ e ∈ edges, Near rel e) ∧
      ds = edges.map (destOf f rel) := by
  rw [mapM_ok] at is
  induction es generalizing ds with
  | nil =>
    cases ds with
    | nil => exact ⟨[], rfl, by simp, rfl⟩
    | cons _ _ => cases is
  | cons e es ih =>
    cases ds with
    | nil => cases is
    | cons d ds =>
      simp only [map_cons, List.cons.injEq] at is
      obtain ⟨edge, rfl, near, rfl⟩ := dest_ok is.1
      obtain ⟨edges, rfl, all, rfl⟩ := ih is.2
      exact ⟨edge :: edges, rfl, forall_mem_cons.2 ⟨near, all⟩, rfl⟩

/-- The line that a block ends with. All edges are filled in; a block that was never filled is not
reached. -/
inductive EndsWith (f : Function) (rel : Nat → Int) : Option Leave → Line → Prop
  | unfilled :
      EndsWith f rel none { instr := .trap .unreachableCodeReached, traps := some f.srcloc }
  | jump {e : Edge} {srcloc : Nat} :
      Near rel e → EndsWith f rel (some ⟨.jump (some e), srcloc⟩) { instr := .jump (destOf f rel e) }
  | branch {cond : Value} {t e : Edge} {srcloc : Nat} : Near rel t → Near rel e →
      EndsWith f rel (some ⟨.branch cond (some t) (some e), srcloc⟩)
        { instr := .brIf (slot f cond) (destOf f rel t) (destOf f rel e) }
  | table {index : Value} {targets : Array (Option Edge)} {edges : List Edge} {default : Edge}
      {srcloc : Nat} :
      targets.toList = edges.map some → (∀ e ∈ edges, Near rel e) → Near rel default →
      EndsWith f rel (some ⟨.table index targets (some default), srcloc⟩)
        { instr := .brTable (slot f index) (edges.map (destOf f rel)) (destOf f rel default) }
  | ret {v : Option Value} {srcloc : Nat} :
      EndsWith f rel (some ⟨.ret v, srcloc⟩) { instr := .ret (result f v) }
  | trap {t : Trap} {srcloc : Nat} :
      EndsWith f rel (some ⟨.trap t, srcloc⟩) { instr := .trap t, traps := some srcloc }

theorem blockExit_ok (is : blockExit f rel b = .ok line) : EndsWith f rel b.leave line := by
  unfold blockExit at is
  cases left : b.leave with
  | none =>
    simp only [left] at is
    cases is
    exact .unfilled
  | some l =>
    obtain ⟨exit, srcloc⟩ := l
    simp only [left, Lower.exit] at is
    cases exit with
    | jump dest =>
      obtain ⟨d, first, is⟩ := except_ok is
      obtain ⟨e, rfl, near, rfl⟩ := dest_ok first
      cases is
      exact .jump near
    | branch cond t e =>
      obtain ⟨d, first, is⟩ := except_ok is
      obtain ⟨d', second, is⟩ := except_ok is
      obtain ⟨t, rfl, near, rfl⟩ := dest_ok first
      obtain ⟨e, rfl, near', rfl⟩ := dest_ok second
      cases is
      exact .branch near near'
    | table index targets default =>
      obtain ⟨ds, first, is⟩ := except_ok is
      obtain ⟨d, second, is⟩ := except_ok is
      obtain ⟨edges, all, near, rfl⟩ := dests_ok first
      obtain ⟨default, rfl, near', rfl⟩ := dest_ok second
      cases is
      exact .table all near near'
    | ret v =>
      cases is
      exact .ret
    | trap t =>
      cases is
      exact .trap

theorem blockExit_plain (is : blockExit f rel b = .ok line) : line.Plain := by
  have ends := blockExit_ok is
  generalize b.leave = leave at ends
  cases ends <;> exact ⟨rfl, rfl, rfl⟩

end Lower
end Wasmill.Code
