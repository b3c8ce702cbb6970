import Wasmill.Proofs.Generator.Logged
import Wasmill.Proofs.Machine.Fetching

/-! Where the calls of finished code lead.

Linked code is made of the lines of compiled functions and stubs. Each line of it can be read back,
and each call leads into its callee, or to a far jump that does. -/
namespace Wasmill
open Code Steps List
variable {config : Config} {func : Nat}

/-- Lowered functions can be read back if they are proper, and leave overflows to their prologues.
-/
theorem Code.Lower.lines_full {env : Env} {f : Ssa.Function} {lines : List Line}
    (proper : f.Proper env)
    (lowered : Lower.lines func f = .ok lines) :
    ∀ line ∈ lines, line.Full ∧ line.instr ≠ .trap .stackOverflow := by
  obtain ⟨place, lowering⟩ := Lower.lines_ok lowered
  refine lowering.forall ?_ ?_ ?_
  · intro line mem
    simp only [Lower.head, mem_cons, not_mem_nil, or_false] at mem
    rcases mem with rfl | rfl <;> exact ⟨by rintro _ _ _ _ ⟨⟩, by rintro ⟨⟩⟩
  · rintro b known s mem
    have fits := ((proper.blocks b known).steps s mem).1
    unfold Lower.step
    cases inst : s.inst with
    | shuffle a b lanes =>
      rw [inst] at fits
      refine ⟨?_, by rintro ⟨⟩⟩
      rintro _ _ _ _ ⟨⟩
      exact fits
    | _ => exact ⟨by rintro _ _ _ _ ⟨⟩, by rintro ⟨⟩⟩
  · intro b known rel line exits
    have ends := Lower.blockExit_ok exits
    generalize left : b.leave = leave at ends
    cases ends with
    | trap =>
      exact ⟨by rintro _ _ _ _ ⟨⟩,
        fun is => ((proper.blocks b known).leave _ left).1 (by cases is; rfl)⟩
    | _ => exact ⟨by rintro _ _ _ _ ⟨⟩, by rintro ⟨⟩⟩

namespace Generator
variable {g : Generator} {pieces : List Piece} {filled : Nat → Option Nat} {stubs : StubOffsets}
  {waiting : List CompileTask}
  {line : Line} {o : Nat}

/-- A finished module shows its pieces. -/
theorem Finished.shows (h : Finished g pieces filled stubs) :
    ∃ code filled', (Gen.module g stubs).linked = .ok code ∧
      (Gen.module g stubs).Shows code g.config.maxBranchRange pieces filled' := by
  obtain ⟨code, filled', linked, all⟩ := h.linked
  have laid := h.kept.sound.laid
  have size : code.size = g.layout.code.size := by rw [all.code.size, h.size]
  refine ⟨code, filled', linked, all, ?_, laid.sound, h.shared, ?_, laid.ranges, laid.trapSites⟩
  · rw [size]
    exact h.small
  · exact fun s p func entry there enters => h.kept.entered_line there enters

/-- Every line that was placed can be read back, and leaves overflows to prologues. -/
theorem Consistent.modest {whole : Prop} (h : Consistent whole g waiting pieces filled)
    (logged : Logged config g)
    (mem : (o, line) ∈ located 0 (linesOf pieces)) :
    line.Full ∧ line.instr ≠ .trap .stackOverflow := by
  obtain ⟨s, p, there, inside⟩ := sited_of_located mem
  have mem := mem_of_located inside
  have exit : ∀ (optimized : Bool) (symbol : Symbol) (index : Nat) (sig : Sig),
      ∀ line ∈ Chunk.exitLines optimized symbol index sig, line.Full ∧
        line.instr ≠ .trap .stackOverflow := by
    intro optimized symbol index sig line mem
    simp only [Chunk.exitLines, mem_cons, not_mem_nil, or_false] at mem
    rcases mem with rfl | rfl | rfl <;> exact ⟨by rintro _ _ _ _ ⟨⟩, by rintro ⟨⟩⟩
  cases h.origin s p there with
  | function known small lowered =>
    obtain ⟨slot, sig, -, yields⟩ := logged.log _ _ known
    exact Lower.lines_full (Ssa.Function.ofBody_proper yields).1 lowered line mem
  | entry =>
    simp only [Chunk.entryLines, mem_cons, not_mem_nil, or_false] at mem
    rcases mem with rfl | rfl | rfl <;> exact ⟨by rintro _ _ _ _ ⟨⟩, by rintro ⟨⟩⟩
  | interpExit => exact exit _ _ _ _ line mem
  | jitExit => exact exit _ _ _ _ line mem
  | trap | throw | far =>
    cases mem_singleton.1 mem
    exact ⟨by rintro _ _ _ _ ⟨⟩, by rintro ⟨⟩⟩

theorem Consistent.full {whole : Prop} (h : Consistent whole g waiting pieces filled)
    (logged : Logged config g)
    (mem : (o, line) ∈ located 0 (linesOf pieces)) : line.Full := (h.modest logged mem).1

end Generator

/-- A call that leads to `target` comes to the function: it enters it, or a far jump there does. -/
def Module.Directs (m : Module) (code : ByteArray) (callee target : Nat) : Prop :=
  m.Enters callee target ∨ ∃ r ∈ m.ranges.toList, r.kind = .callThunk callee ∧ r.start = target ∧
    ∃ entry, Fetch.instrAt code target = .ok (.instr (.jumpFar entry), r.stop) ∧
      m.Enters callee entry

/-- The linked code of the module is made of these pieces: bodies of functions of the log, and
stubs. Every line of them can be read at its place, with operands that linking filled in. -/
structure Module.Composed (m : Module) (log : Array (Nat × Ssa.Function)) (code : ByteArray)
    (pieces : List Piece) : Prop where
  linked : m.linked = .ok code
  ranges : m.ranges.toList = (sited 0 pieces).map fun (s, p) => p.range s
  origin : ∀ s p, (s, p) ∈ sited 0 pieces → Origin log s p
  /-- Exports are entered through stubs that call them. -/
  entries : ∀ (index : Nat) e, m.exports.funcs[index]? = some e →
    ∃ sig, (e.entry, ⟨.entry index, Chunk.entryLines e.func sig⟩) ∈ sited 0 pieces
  size : code.size = extent (linesOf pieces)
  read : ∀ o line, (o, line) ∈ located 0 (linesOf pieces) → ∃ value,
    Fetch.instrAt code o = .ok ((line.instr.fill value).fetched.1,
      o + (line.instr.fill value).fetched.2)

namespace Generator
variable {g : Generator} {pieces : List Piece} {filled : Nat → Option Nat} {stubs : StubOffsets}

theorem Finished.composed (h : Finished g pieces filled stubs) (logged : Logged config g) :
    ∃ code filled', (Gen.module g stubs).Composed g.log code pieces ∧
      (Gen.module g stubs).Shows code g.config.maxBranchRange pieces filled' := by
  obtain ⟨code, filled', linked, shows⟩ := h.shows
  refine ⟨code, filled', ⟨linked, shows.ranges, h.kept.origin, ?_, shows.size, ?_⟩, shows⟩
  · exact fun index e is => ⟨_, h.exported index e is⟩
  · intro o line mem
    refine ⟨fun h => filled' (o + h), ?_⟩
    exact instrAt_encode (shows.ready mem (h.kept.full logged mem)) (shows.short mem)
      (shows.linked.code.holds mem)

theorem finish_composed {history : List Request} {m : Module}
    (clean : Along Request.Clean (new config) history)
    (finished : Gen.finish ((new config).after history) = (.ok m, g)) :
    Logged config g ∧ ∃ pieces filled stubs, Finished g pieces filled stubs ∧
      Gen.module g stubs = m ∧
      ∃ code filled', m.Composed g.log code pieces ∧
        m.Shows code g.config.maxBranchRange pieces filled' := by
  obtain ⟨_, _, orderly⟩ := (orderly_new config).after clean
  obtain ⟨pieces, filled, stubs, _, done, rfl, _⟩ := orderly.finish.ok finished
  have logged : Logged config g :=
    (logged_after config history).alike ((inert_finish _).ok finished)
  exact ⟨logged, pieces, filled, stubs, done, rfl, done.composed logged⟩

/-- A settled call of linked code leads to its callee. -/
theorem Finished.directs {code : ByteArray} {filled' : Nat → Option Nat}
    (h : Finished g pieces filled stubs)
    (shows : (Gen.module g stubs).Shows code g.config.maxBranchRange pieces filled')
    {callee target : Nat}
    (leads : Enters pieces callee target ∨ FarJump pieces callee target) :
    (Gen.module g stubs).Directs code callee target := by
  rcases leads with enters | far
  · exact .inl (h.enters enters)
  · obtain ⟨entry, read, enters⟩ := h.far shows.linked far
    refine .inr ⟨(Piece.far callee).range target, ?_, rfl, rfl, entry, read, enters⟩
    rw [shows.ranges]
    exact mem_map.2 ⟨(target, Piece.far callee), far, rfl⟩

/-- In a module that is finished, unless a request failed before and did harm, every call reaches
its callee. While a module is built, calls wait only as long as the next pass can settle them. -/
theorem finish_calls (config : Config) (history : List Request) :
    (∀ m g, Along Request.Clean (new config) history →
      Gen.finish ((new config).after history) = (.ok m, g) →
      ∃ code pieces, m.Composed g.log code pieces ∧
        ∀ o line rel args dst next, (o, line) ∈ located 0 (linesOf pieces) →
          Fetch.instrAt code o = .ok (.instr (.call rel args dst), next) →
          ∃ callee bytecode, ∃ target : Nat, line.calls = some (callee, bytecode) ∧
          (target : Int) = o + rel ∧
            rel.natAbs ≤ config.maxBranchRange ∧
              m.Directs code callee target) ∧ let l := ((new config).after history).layout
    l.code.size - l.lastPatched + l.pendingCalls.size * thunkSize ≤ config.maxBranchRange ∧
      ∀ c ∈ l.pendingCalls, l.lastPatched ≤ c.offset := by
  refine ⟨?_, ?_⟩
  · intro m g clean finished
    obtain ⟨logged, pieces, filled, stubs, done, rfl, code, filled', composed, shows⟩ :=
      finish_composed clean finished
    refine ⟨code, pieces, composed, ?_⟩
    intro o line rel args dst next mem read
    rw [instrAt_encode (shows.ready mem (done.kept.full logged mem)) (shows.short mem)
      (shows.linked.code.holds mem)] at read
    have isCall : line.instr.isCall = true := by
      unfold Line.at at read
      cases is : line.instr <;> rw [is] at read <;> first | rfl | cases read
    rw [← shows.calls_isSome mem] at isCall
    obtain ⟨⟨callee, bytecode⟩, calls⟩ := Option.isSome_iff_exists.1 isCall
    obtain ⟨target, old, args', dst', is, settled, met⟩ := shows.call mem calls
    have fetched : (line.at o filled').fetched.1 = .instr (line.at o filled').narrowed := by
      unfold Line.at
      rw [is]
      rfl
    rw [fetched, met] at read
    simp only [Except.ok.injEq, Prod.mk.injEq, Fetched.instr.injEq, Instr.call.injEq] at read
    refine ⟨callee, bytecode, target, calls, by omega, ?_, done.directs shows settled.leads⟩
    have reached := settled.reached
    rw [logged.config] at reached
    rw [← read.1.1]
    exact reached
  · obtain ⟨_, _, grown⟩ := (grown_new False config).after history
    have budget := grown.kept.sound.budget
    have reach := grown.kept.reach
    rw [(logged_after config history).config] at reach
    rw [← reach]
    exact ⟨budget.room, budget.waiting⟩

/-- An import and a function, both exported. -/
def exportedImport : List Request :=
  [.declare (.sig ⟨[], none⟩), .declare (.funcImport ⟨"m", "f"⟩ 0), .declare (.func 0),
    .declare (.export "f" (.function 0)),
    .declare (.export "g" (.function 1)), .define 1 ⟨#[0x00, 0x10, 0x00, 0x0b]⟩ 0]

/-- Where calls reach only 64 bytes. -/
theorem finish_calls_exportedImport :
    ∃ m g code pieces, Gen.finish ((new { maxBranchRange := 64 }).after exportedImport) =
      (.ok m, g) ∧
      m.Composed g.log code pieces ∧
      ∀ o line rel args dst next, (o, line) ∈ located 0 (linesOf pieces) →
        Fetch.instrAt code o = .ok (.instr (.call rel args dst), next) →
        ∃ callee bytecode, ∃ target : Nat, line.calls = some (callee, bytecode) ∧
          (target : Int) = o + rel ∧
          rel.natAbs ≤ 64 ∧ m.Directs code callee target := by
  have clean : Along Request.Clean (new { maxBranchRange := 64 }) exportedImport :=
    (harmless_of_served (by decide +kernel)).1
  obtain ⟨m, g, is, -⟩ :=
    finished_of { maxBranchRange := 64 } exportedImport (fun _ => true) (by decide +kernel)
  obtain ⟨code, pieces, composed, calls⟩ :=
    (finish_calls { maxBranchRange := 64 } exportedImport).1 m g clean is
  exact ⟨m, g, code, pieces, is, composed, calls⟩

/-- A function that calls one whose body was refused. The first attempt to finish fails, since a far
jump has no target. -/
def retried : List Request :=
  [.declare (.sig ⟨[], none⟩), .declare (.func 0), .declare (.func 0),
    .declare (.export "f" (.function 0)),
    .define 1 ⟨#[0x00, 0x20, 0x05, 0x0b]⟩ 0, .define 0 ⟨#[0x00, 0x10, 0x01, 0x0b]⟩ 0,
      .finishCodegen]

/-- The second attempt succeeds, and leaves a far jump that leads nowhere. -/
theorem finish_retried : ∃ m g code, Gen.finish ((new {}).after retried) = (.ok m, g) ∧
    m.linked = .ok code ∧
    ∃ r ∈ m.ranges.toList, r.kind = .callThunk 1 ∧ (Fetch.instrAt code r.start).isOk = false := by
  obtain ⟨m, g, is, shown⟩ := finished_of {} retried (fun m => m.linked.toOption.any fun code =>
    m.ranges.toList.any fun r => decide (r.kind = .callThunk 1) &&
      !(Fetch.instrAt code r.start).isOk) (by decide +kernel)
  cases linked : m.linked with
  | error e => rw [linked] at shown; cases shown
  | ok code =>
    simp only [linked, Except.toOption, Option.any_some, any_eq_true, Bool.and_eq_true,
      decide_eq_true_eq,
      Bool.not_eq_true'] at shown
    obtain ⟨r, mem, kind, unread⟩ := shown
    exact ⟨m, g, code, is, linked, r, mem, kind, unread⟩

end Generator
end Wasmill
