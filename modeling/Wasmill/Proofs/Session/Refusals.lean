import Wasmill.Proofs.Session.Keeping
import Wasmill.Proofs.World.Refused

/-! Refused instantiations in sessions.

Whatever commands were carried out before, an instantiation that is refused leaves the world as it
was, except that tables it was given become its engine's own. So a module of another engine may be
refused afterwards that would have been instantiated before. -/
namespace Wasmill

/-- The error that a command failed with. -/
def Outcome.error? (o : Outcome) : Option Error :=
  match o.reply with
  | .error (.error e) => some e
  | _ => none

namespace Session

/-- A refused instantiation changes nothing that can be seen, but tables that are given become the
engine's own. -/
theorem instantiate_refused (commands : List Command) (m : Module) (engine : Nat)
    (imports : Imports) {w' : World} {e : Error}
    (refused : (after commands).world.instantiate m engine imports = (w', .error e)) :
    (after commands).world.Spared w' engine imports.tables ∧
      ((∀ t ∈ imports.tables, ∀ tbl,
        (after commands).world.tables[t]? = some tbl → tbl.engine ≠ none) →
        w'.tables = (after commands).world.tables) := by
  have spared := World.instantiate_error ((after_moves commands).filed .empty) refused
  refine ⟨spared, fun bound => Array.ext_getElem? fun t => ?_⟩
  rcases spared.tables t with same | ⟨mem, tbl, there, free, -⟩
  · exact same
  · exact absurd free (bound t mem tbl there)

/-- Two engines, a table that belongs to none of them, and for each engine a module that imports it.
The one for the first engine imports a memory too. -/
def sharing : List Command :=
  [.engine "a" {}, .engine "b" {}, .table "t" ⟨1, none⟩,
    .generator "g" "a", .draft "g" (.table ⟨1, none⟩ (some ⟨"m", "t"⟩)), .draft "g"
      (.memory ⟨1, none⟩ (some ⟨"m", "memory"⟩)),
    .draft "g" (.finish "both"),
    .generator "h" "b", .draft "h" (.table ⟨1, none⟩ (some ⟨"m", "t"⟩)), .draft "h"
      (.finish "table")]

/-- A module of the session. -/
def module (s : Session) (name : String) : Module := (s.modules.find? name).elim default (·.module)

theorem instantiate_refused_sharing : ∃ w', (after sharing).world.Spared w' 0 [0] ∧
    (after sharing).world.instantiate ((after sharing).module "both") 0 { tables := [0] } =
      (w', .error (.instantiation .missingMemory)) := by
  have refused :
      (after sharing).world.instantiate ((after sharing).module "both") 0 { tables := [0] } =
      (_, .error (.instantiation .missingMemory)) := Prod.ext rfl (by decide +kernel)
  exact ⟨_, (instantiate_refused sharing _ 0 { tables := [0] } refused).1, refused⟩

/-- The second engine could have used the table, but not after the first engine's module was refused
with it. -/
theorem refused_table_bound : let both : Command := .instantiate "i" "both" [] ["t"] none []
    let table : Command := .instantiate "j" "table" [] ["t"] none []
    ((after sharing).perform both).2.error? = some (.instantiation .missingMemory) ∧
      ((after sharing).perform table).2.reply matches .ok .done ∧
      ((after (sharing ++ [both])).perform table).2.error? = some
        (.instantiation (.tableEngine "m" "t")) := by
  decide +kernel

end Session
end Wasmill
