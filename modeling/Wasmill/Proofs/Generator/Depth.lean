import Wasmill.Proofs.Generator.Blaming
import Wasmill.Proofs.Machine.Entering
import Wasmill.Proofs.Machine.Stacking

/-! How deep calls nest.

Only prologues look at the limit, where functions and exits are entered, and they compare it with
the number of frames. The stub through which an export is entered has a frame, so less is left for
the export than for a start function. -/
namespace Wasmill
open Code Steps

theorem Code.Instr.prologue_of_overflows {i : Instr} (deep : i.overflows = true)
    (other : i ≠ .trap .stackOverflow) :
    ∃ size stub, i = .prologue size stub := by
  cases i with
  | prologue size stub => exact ⟨size, stub, rfl⟩
  | trap t => cases t <;> first | (cases deep; done) | exact absurd rfl other
  | _ => cases deep

/-- A call of an export begins at its stub, with one frame. -/
theorem World.activation_of_enterIndex {w w' : World} {id index : Nat} {args : List Val} {t : Task}
    (is : w.enterIndex id index args = .ok (w', t)) : ∃ e slots want,
      (w.instances.getD id default).module.exports.funcs[index]? = some e ∧
        t = .code (w.activation id e.entry slots want) := by
  unfold enterIndex at is
  dsimp only at is
  split at is
  · cases is
  · rename_i e known
    split at is
    · cases is
    · rename_i sig _
      obtain ⟨slots, _, is⟩ := Steps.except_ok is
      cases is
      exact ⟨e, slots, sig.result, known, rfl⟩

namespace Machine
variable {w : World} {a : Activation}

theorem tallies_line {i : Instr} {value : Nat → Option Nat} {next : Nat}
    (read : Fetch.instrAt (w.instances.getD a.inst default).code a.pc = .ok
      ((i.fill value).fetched.1, next)) :
    opens w a = (if i.call?.isSome ∧ Uninterrupted w a then 1 else 0) ∧
      closes w a = if i.returns then 1 else 0 := by
  unfold opens closes
  rw [read]
  cases i <;> exact ⟨rfl, rfl⟩

/-- Code that was just entered has one frame, and then one more than calls that have not returned.
-/
def Nested (w : World) (a : Activation) : Prop :=
  a.frames.size = 1 ∧ ∀ below calls returns w' b, Tallies below w a calls returns w'
    (.code b) below →
    b.frames.size + returns = 1 + calls

theorem nested_activation (w w' : World) (id entry : Nat) (args : Array Slot)
    (want : Option ValType) :
    Nested w (w'.activation id entry args want) := by
  refine ⟨rfl, fun below calls returns w₁ b counts => ?_⟩
  obtain ⟨above, c, tasks, sum⟩ := counts.frames
  cases eq_of_alone tasks
  exact sum

end Machine

namespace Generator
variable {g : Generator}

/-- Unless a request failed before and did harm, code of a finished module runs into the limit
exactly where it enters a function or an exit with more frames than that. Every call opens one
frame, unless a request to stop is noticed instead, every return closes one, and no other line
changes them. An export is entered through a stub, which has the first frame, and a start function
is entered with the first frame for itself; from then on there is one frame more than calls that
have not returned. -/
theorem finish_limits {config : Config} {history : List Request} {m : Module}
    (clean : Along Request.Clean (new config) history)
    (finished : Gen.finish ((new config).after history) = (.ok m, g)) :
    ∃ code pieces, m.Composed g.log code pieces ∧ (∀ s p, (s, p) ∈ sited 0 pieces →
        (∀ entry, (∃ func, p.EntersAt s func entry) ∨
          (∃ index, p.kind = .jitExit index) ∧ entry = s →
          ∃ line size stub, (entry, line) ∈ located s p.lines ∧ line.instr = .prologue size stub) ∧
        ∀ (w : World) (a : Activation) line below, w.Has a.inst m code →
          (a.pc, line) ∈ located s p.lines →
          (∀ size stub, line.instr = .prologue size stub →
            (a.maxDepth < a.frames.size → Machine.Traps below w a
              (m.trapInfo .stackOverflow a.pc)) ∧
            (a.frames.size ≤ a.maxDepth → ∃ a',
              Machine.step w (.code a) below = .running w (.code a') below ∧ a.Beside a')) ∧
          (line.instr.relays = false → Exec.Blames ⟨w, a⟩ fun info => info.trap = .stackOverflow →
            ∃ size stub, line.instr = .prologue size stub) ∧
          ∀ w' b, Machine.step w (.code a) below = .running w' (.code b) below →
            if line.instr.call?.isSome ∧ Machine.Uninterrupted w a then b.frames.size =
              a.frames.size + 1
            else if line.instr.returns then b.frames.size + 1 = a.frames.size
              else b.frames = a.frames) ∧
      (∀ (w w' : World) id index args t,
        w.Has id m code → w.enterIndex id index args = .ok (w', t) → ∃ a e sig, t = .code a ∧
        m.exports.funcs[index]? = some e ∧
        (a.pc, ⟨.entry index, Chunk.entryLines e.func sig⟩) ∈ sited 0 pieces ∧
        Machine.Nested w' a) ∧
      ∀ entry, m.startEntry = some entry → ∃ func, m.start = some func ∧ Enters pieces func entry ∧
        ∀ (w : World) id args want, Machine.Nested w (w.activation id entry args want) := by
  obtain ⟨logged, pieces, filled, stubs, done, rfl, code, filled', composed, shows⟩ :=
    finish_composed clean finished
  refine ⟨code, pieces, composed,
    fun s p there => ⟨?_, fun w a line below has inside => ⟨?_, ?_, ?_⟩⟩, ?_, ?_⟩
  · rintro entry (⟨func, enters⟩ | ⟨⟨index, is⟩, rfl⟩)
    · exact shows.entered s p func entry there enters
    · cases composed.origin entry p there with
      | jitExit => exact ⟨_, _, _, List.mem_cons_self, rfl⟩
      | _ => cases is
  · intro size stub is
    have ⟨deep, room⟩ := shows.prologue below has (located_of_sited there inside) is
    exact ⟨deep, fun le => ⟨_, room le, (a.append_beside _).at _⟩⟩
  · intro plain
    have ⟨full, other⟩ := done.kept.modest logged (located_of_sited there inside)
    exact (shows.blames has.within there inside full
      (done.resolves shows.linked there inside) plain).imp
      fun info ⟨_, _, overflows⟩ is => Instr.prologue_of_overflows (overflows is) other
  · intro w' b is
    obtain ⟨value, read⟩ := composed.read _ _ (located_of_sited there inside)
    rw [← has.within.code] at read
    obtain ⟨calls, returns⟩ := Machine.tallies_line read
    have ⟨sum, same⟩ := Machine.frames_of_step is
    rw [calls, returns] at sum same
    split
    · rename_i both
      rwa [if_pos both, Instr.returns_of_calls both.1, if_neg Bool.false_ne_true] at sum
    · rename_i neither
      rw [if_neg neither] at sum same
      split
      · rename_i one
        rwa [if_pos one] at sum
      · rename_i none'
        rw [if_neg none'] at same
        exact same rfl
  · intro w w' id index args t has is
    obtain ⟨e, slots, want, known, rfl⟩ := World.activation_of_enterIndex is
    rw [show (w.instances.getD id default).module = _ from
      (World.Has.within (a := w.activation id e.entry slots want) has).module] at known
    obtain ⟨sig, at'⟩ := composed.entries index e known
    exact ⟨_, e, sig, rfl, known, at', Machine.nested_activation _ _ _ _ _ _⟩
  · intro entry is
    obtain ⟨func, start, at'⟩ := Option.bind_eq_some_iff.1 is
    exact ⟨func, start, done.kept.sound.laid.entries func entry at',
      fun w id args want => Machine.nested_activation w w id entry args want⟩

/-- A function that does nothing, which is exported and runs at the start. -/
def starting : List Request :=
  [.declare (.sig ⟨[], none⟩), .declare (.func 0), .declare (.export "f" (.function 0)),
    .declare (.start 0),
    .define 0 ⟨#[0x00, 0x0b]⟩ 0]

theorem finish_limits_starting :
    ∃ m g code pieces entry s p line, Gen.finish ((new {}).after starting) = (.ok m, g) ∧
    m.Composed g.log code pieces ∧ m.startEntry = some entry ∧ (s, p) ∈ sited 0 pieces ∧
      (entry, line) ∈ located s p.lines ∧
    ∀ (w : World) (a : Activation) below, w.Has a.inst m code → a.pc = entry →
      a.maxDepth < a.frames.size →
      Machine.Traps below w a (m.trapInfo .stackOverflow entry) := by
  have clean : Along Request.Clean (new {}) starting := (harmless_of_served (by decide +kernel)).1
  obtain ⟨m, g, is, shown⟩ :=
    finished_of {} starting (fun m => m.startEntry.isSome) (by decide +kernel)
  obtain ⟨code, pieces, composed, lines, _, start⟩ := finish_limits clean is
  obtain ⟨entry, starts⟩ := Option.isSome_iff_exists.1 shown
  obtain ⟨func, _, ⟨s, p, there, enters⟩, _⟩ := start entry starts
  obtain ⟨line, size, stub, inside, prologue⟩ := (lines s p there).1 entry (.inl ⟨func, enters⟩)
  refine ⟨m, g, code, pieces, entry, s, p, line, is, composed, starts, there, inside, ?_⟩
  rintro w a below has rfl deep
  exact (((lines s p there).2 w a line below has inside).1 size stub prologue).1 deep

/-- A world where calls nest once at most. -/
def flatWorld (m : Module) (code : ByteArray) : World :=
  { engines := #[⟨{ maxCallDepth := 1 }, {}⟩],
    instances := #[{ (default : Instance) with module := m, code }] }

theorem starting_runs : (match Gen.finish ((new {}).after starting) with
    | (.ok m, _) =>
      match m.linked, m.startEntry with
      | .ok code, some entry =>
        match Machine.run 9 (flatWorld m code)
          (.code ((flatWorld m code).activation 0 entry #[0] none)) [],
            (flatWorld m code).enterIndex 0 0 [] with
        | some (_, .ok none), .ok (w, t) =>
          match Machine.run 9 w t [] with
          | some (_, .error (.trap info)) => info.trap == .stackOverflow
          | _ => false
        | _, _ => false
      | _, _ => false
    | _ => false) = true := by decide +kernel

/-- Where calls nest once at most, the function can run at the start, but not as an export. -/
theorem starting_only : ∃ m g code w entry, Gen.finish ((new {}).after starting) = (.ok m, g) ∧
    m.linked = .ok code ∧
    w.Has 0 m code ∧ m.startEntry = some entry ∧ (w.activation 0 entry #[0] none).maxDepth = 1 ∧
    (∃ w', Machine.run 9 w (.code (w.activation 0 entry #[0] none)) [] = some (w', .ok none)) ∧
    ∃ w₁ t w₂ info, w.enterIndex 0 0 [] = .ok (w₁, t) ∧
      Machine.run 9 w₁ t [] = some (w₂, .error (.trap info)) ∧
      info.trap = .stackOverflow := by
  have shown := starting_runs
  repeat' split at shown
  all_goals try cases shown
  rename_i m g finished _ _ code entry linked starts _ _ w' w₁ t first enters _ w₂ info second
  exact ⟨m, g, code, flatWorld m code, entry, finished, linked, ⟨_, rfl, rfl, rfl⟩, starts, rfl,
    ⟨w', first⟩, w₁, t, w₂, info, enters, second, eq_of_beq shown⟩

end Generator
end Wasmill
