import Wasmill.Proofs.Generator.Whole
import Wasmill.Proofs.Ssa.Compiled

/-! What requests other than declarations leave alone.

They change nothing that is declared, and whatever they log was compiled in some slot. -/
namespace Wasmill
open Code Steps

namespace Generator
variable {g g' : Generator}

theorem inert_finish (g : Generator) :
    Leads Gen.finish g (fun _ => Alike g) (fun _ => Alike g) := by
  have inert : Inert Gen.finish := by unfold Gen.finish; infer_instance
  exact (inert.leads g).imp (fun _ _ => id) fun _ _ => And.left

/-- Only declarations change what is declared. -/
theorem inert_perform {r : Request} (other : ∀ d, r ≠ .declare d) : Inert r.perform := by
  cases r with
  | declare d => exact absurd rfl (other d)
  | define func body offset => exact inferInstanceAs (Inert (Gen.startDef >>= _))
  | _ => dsimp only [Request.perform]; infer_instance

section
variable {P : Generator → Prop} (alike : ∀ {g g'}, P g → Alike g g' → P g')
  (accepts : ∀ {g g' d}, P g → Accepts g d g' → P g')
include alike accepts

theorem perform_keeps (h : P g) (r : Request) : P (r.perform g).2 := by
  by_cases declares : ∃ d, r = .declare d
  · obtain ⟨d, rfl⟩ := declares
    refine Leads.state (P := P) ?_
    rw [Request.perform, Gen.leads_declare]
    cases is : g.declared d with
    | error e => exact h
    | ok g' => exact accepts h (declared_accepts is)
  · have inert := inert_perform fun d is => declares ⟨d, is⟩
    exact alike h (inert.state Alike _)

/-- What neither an accepted declaration nor any other request undoes holds after any history. -/
theorem after_keeps (h : P g) (history : List Request) : P (g.after history) := by
  induction history generalizing g with
  | nil => exact h
  | cons r rest ih => exact ih (perform_keeps alike accepts h r)

end

/-- The generator has this configuration, and every function of its log was compiled in some slot.
-/
structure Logged (config : Config) (g : Generator) : Prop where
  config : g.config = config
  log : ∀ func f, (func, f) ∈ g.log → ∃ slot : CompileSlot, slot.CompilesTo func f

theorem Logged.alike {config : Config} (h : Logged config g) (alike : Alike g g') :
    Logged config g' :=
  ⟨alike.config.trans h.config, fun func f mem => (alike.log func f mem).elim (h.log func f) id⟩

theorem logged_after (config : Config) (history : List Request) :
    Logged config ((new config).after history) := by
  have fresh : Logged config (new config) :=
    ⟨rfl, fun func f mem => absurd mem (Array.not_mem_empty (func, f))⟩
  refine after_keeps Logged.alike (fun h accepts => ?_) fresh history
  rw [accepts.declares.same]
  exact ⟨h.config, h.log⟩

end Generator
end Wasmill
