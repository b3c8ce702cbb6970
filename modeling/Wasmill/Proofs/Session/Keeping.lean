import Wasmill.Proofs.World.Moves
import Wasmill.Session

/-! What commands do to the world.

They make moves. Only a run that does not come to an end in the steps it is given leaves nothing of
the world; then all begins anew. So every world of a session is reached from the empty one by moves.
-/
namespace Wasmill
open Steps

/-- The world comes of another one by moves, or all began anew. -/
def World.Reaches (w w' : World) : Prop := w.Moves w' ∨ World.Moves {} w'

theorem World.Reaches.trans {w w' w'' : World} (one : w.Reaches w') (two : w'.Reaches w'') :
    w.Reaches w'' := by
  rcases two with moves | anew
  · exact one.imp (·.trans moves) (·.trans moves)
  · exact .inr anew

/-- So does the world of a session. -/
def Session.Reaches (s t : Session) : Prop := s.world.Reaches t.world

instance : Lasting Session.Reaches := ⟨fun _ => .inl .refl, .trans⟩

namespace Act
variable {α β : Type}

/-- However it ends, the act makes moves. -/
abbrev Walks (x : Act α) : Prop := Respects Session.Reaches (fun _ => True) x

/-! ### Steps of acts -/

instance (engines : Session → Named Nat) (modules : Session → Named Loaded) (made : Session → Nat)
    (images : Session → Named ByteArray)
    (drafts : Session → Named Draft) (slots : Session → Named CompileSlot)
    (compiled : Session → Array (Nat × Ssa.Function)) :
    Walks (modify fun s =>
      ⟨s.world, engines s, modules s, made s, images s, drafts s, slots s,
        compiled s⟩) := .modify fun _ => .inl .refl

theorem walks_onWorld {f : World → World} (moves : ∀ w : World, w.Moves (f w)) :
    Walks (onWorld f) := .modify fun s => .inl (moves s.world)

instance (names tables hosts instances : World → Named Nat) : Walks (onWorld fun w =>
    { w with
      memoryNames := names w, tableNames := tables w, hostNames := hosts w
      instanceNames := instances w }) :=
  walks_onWorld fun _ => World.Moves.aside rfl rfl

section
variable (name : String) (id : Nat)

instance : Walks (onWorld (·.nameInstance name id)) := walks_onWorld fun _ => .nameInstance name id

instance : Walks (onWorld (·.unnameInstance name)) := walks_onWorld fun _ => .unnameInstance name

instance : Walks (onWorld (·.nameTable name id)) := walks_onWorld fun _ => .nameTable name id

instance : Walks (onWorld (·.unnameTable name)) := walks_onWorld fun _ => .unnameTable name

instance : Walks (onWorld (·.holdInstance id)) := walks_onWorld fun _ => .holdInstance id

instance : Walks (onWorld (·.dropInstance id)) := walks_onWorld fun _ => .dropInstance id

instance (f : Memory → Memory) : Walks (onWorld (·.onMemory id f)) :=
  walks_onWorld fun _ => .aside rfl rfl

instance (code : OptimizedCode Effect) : Walks (onWorld (·.setOptimized id code)) :=
  walks_onWorld fun _ => .setOptimized id code

instance : Walks (onWorld (·.invalidate id)) := walks_onWorld fun _ => .invalidate id

instance : Walks (onWorld (·.interrupt id)) := walks_onWorld fun _ => .onInstance fun _ _ => rfl

instance (on : Bool) : Walks (onWorld (·.setProfiling id on)) :=
  walks_onWorld fun _ => .setProfiling id on

instance : Walks (onWorld fun w => (w.holdTable id).nameTable name id) :=
  walks_onWorld fun _ => .past (.nameTable name id) rfl rfl

instance : Walks (onWorld fun w => (w.holdInstance id).nameInstance name id) :=
  walks_onWorld fun _ => (World.Moves.holdInstance id).trans (World.Moves.nameInstance name id)

end

theorem walks_make {f : World → World × α} (moves : ∀ w : World, w.Moves (f w).1) :
    Walks (make f) := by
  refine ⟨fun s => ?_⟩
  unfold Leads make
  exact .inl (moves s.world)

instance (config : Config) : Walks (make (·.addEngine config)) :=
  walks_make fun _ => (World.Move.engine config).one

instance (h : Host) : Walks (make (·.addHost h)) := walks_make fun _ => .aside rfl rfl

instance (bounds : Bounds) : Walks (make (·.addMemory bounds)) := walks_make fun _ => .aside rfl rfl

instance (bounds : Bounds) : Walks (make (·.addTable bounds)) := walks_make fun _ => .aside rfl rfl

instance (m : Module) (engine : Nat) (imports : Imports) :
    Walks (make (·.instantiate m engine imports)) :=
  walks_make fun w => w.instantiate_moves _ _ _

instance (a : Option α) : Walks (known a) := by unfold known; split <;> infer_instance

instance (r : Except Error α) : Walks (orFail r) := by unfold orFail fail; split <;> infer_instance

instance (r : Except Failure α) : Walks (ofExcept r) := by unfold ofExcept; split <;> infer_instance

instance {f : α → Act β} [∀ a, Walks (f a)] (a : Option α) : Walks (a.mapM f) := by
  cases a with
  | none => exact inferInstanceAs (Walks (pure none))
  | some a => exact inferInstanceAs (Walks (f a >>= fun _ => pure _))

instance {x : Act α} [Walks x] : Walks (outcome x) := by
  refine ⟨fun s => ?_⟩
  unfold Leads outcome
  exact Respects.state (x := x) Session.Reaches fun _ => True

/-! ### Parts of commands -/

instance : Walks world := by unfold world; infer_instance

instance (name : String) : Walks (instance? name) := by unfold instance?; infer_instance

instance (name : String) : Walks (host? name) := by unfold host?; infer_instance

instance (name : String) : Walks (memory? name) := by unfold memory?; infer_instance

instance (name : String) : Walks (table? name) := by unfold table?; infer_instance

instance (name : String) : Walks (module? name) := by unfold module?; infer_instance

instance (engine : Nat) : Walks (config engine) := by unfold config; infer_instance

instance (name : String) : Walks (engine? name) := .seq fun s => by split <;> infer_instance

instance (name : String) (engine : Nat) (m : Module) : Walks (load name engine m) := by
  unfold load; infer_instance

instance (task : Task) : Walks (runTask task) := by
  refine ⟨fun s => ?_⟩
  unfold runTask
  rw [leads_bind, leads_get, leads_bind, leads_set]
  cases is : Machine.run stepLimit s.world task [] with
  | none => exact leads_throw.2 ⟨.inr .refl, trivial⟩
  | some last =>
    dsimp only
    rw [leads_bind]
    unfold onWorld
    rw [leads_modify]
    exact Respects.after (.inl (Machine.run_moves is))

theorem walks_enter {start : World → Except Error (World × Task)}
    (moves : ∀ w w' task, start w = .ok (w', task) → w.Moves w') : Walks (enter start) := by
  refine ⟨fun s => ?_⟩
  unfold enter world
  rw [leads_bind, leads_bind, leads_get, leads_pure, leads_bind]
  cases is : start s.world with
  | error e => exact leads_throw.2 ⟨.inl .refl, trivial⟩
  | ok r =>
    unfold orFail onWorld
    dsimp only
    rw [leads_pure, leads_bind, leads_modify]
    exact Respects.after (.inl (moves _ _ _ is))

instance (inst : Nat) (target : Pick) (args : List Val) : Walks (call inst target args) := by
  cases target with
  | name name => exact walks_enter fun _ _ _ is => .enter is
  | index index => exact walks_enter fun _ _ _ is => .enterIndex is

instance (id : String) (m : Loaded) (imports : Imports) : Walks (instantiate id m imports) := by
  refine .seq fun made => .seq fun inst => ?_
  dsimp only
  split
  · refine .seq fun _ => .seq fun w => .seq fun started => ?_
    split <;> infer_instance
  · infer_instance

instance (kind : ObjectKind) (name : String) : Walks (idOf kind name) := by
  unfold idOf; split <;> infer_instance

instance (kind : ObjectKind) (name : String) : Walks (dropNamed kind name) := by
  unfold dropNamed; split <;> infer_instance

instance (name : String) (step : Gen α) : Walks (onDraft name step) :=
  .seq fun _ => .seq fun _ => inferInstanceAs (Walks (_ >>= fun _ => _))

instance (name : String) (c : DraftCommand) : Walks (draft name c) := by
  cases c <;> dsimp only [draft, declareIndex, declare] <;> infer_instance

/-- Whatever a command does, it makes moves. -/
theorem walks_perform (c : Command) : Walks (perform c) := by
  cases c with
  | serialize name keep =>
    exact .seq fun m => .seq fun config => by dsimp only; split <;> infer_instance
  | deserialize id engine source =>
    refine .seq fun engine => ?_
    dsimp only
    split <;> infer_instance
  | memRead | memWrite => exact .seq fun _ => .seq fun _ => by split <;> infer_instance
  | memGrow | getGlobal | getMemory | getTable =>
    exact .seq fun _ => .seq fun _ => by dsimp only; split <;> infer_instance
  | instantiate id module funcs tables memory globals =>
    exact .seq fun m => .seq fun funcs => .seq fun tables => inferInstance
  | _ => dsimp only [perform]; infer_instance

end Act

namespace Session

/-- The session after these commands, one after another. -/
def after (commands : List Command) : Session := commands.foldl (fun s c => (s.perform c).1) {}

theorem perform_reaches (s : Session) (c : Command) : s.world.Reaches (s.perform c).1.world := by
  have last :
      Session.Reaches { s with compiled := #[] } (Act.perform c { s with compiled := #[] }).2 :=
    (Act.walks_perform c).state Session.Reaches _
  exact World.Reaches.trans last (.inl (.aside rfl rfl))

/-- Every world of a session is reached by moves. -/
theorem after_moves (commands : List Command) : World.Moves {} (after commands).world := by
  unfold after
  generalize start : ({} : Session) = s
  have moves : World.Moves {} s.world := start ▸ .refl
  clear start
  induction commands generalizing s with
  | nil => exact moves
  | cons c commands ih => exact ih _ ((perform_reaches s c).elim moves.trans id)

end Session
end Wasmill
