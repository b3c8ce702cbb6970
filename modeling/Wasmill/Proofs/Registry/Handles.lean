import Wasmill.Proofs.Registry.Holding

/-! Handles by name: however they are registered, cloned and dropped, each registry counts those
that are left. -/
namespace Wasmill.Registry
open List

/-- What can be asked of named handles. -/
inductive Request
  | register (name : String) (sig : Sig) (inOther : Bool)
  | clone (name source : String)
  | drop (name : String)

/-- What a handle holds. -/
def Handle.holds (x : Handle) : Nat × Sig := (x.token, x.sig)

namespace Handles

def perform (h : Handles) : Request → Handles
  | .register name sig inOther => (h.register name sig inOther).1
  | .clone name source => (h.clone name source).elim h (·.1)
  | .drop name => (h.drop name).1

def run (h : Handles) (requests : List Request) : Handles := requests.foldl perform h

def registry (h : Handles) (inOther : Bool) : Registry := if inOther then h.other else h.main

/-- The handles among these that belong to one registry. -/
def among (handles : List Handle) (inOther : Bool) : List Handle :=
  handles.filter (·.inOther == inOther)

/-- The handles of one registry that have a name. -/
def live (h : Handles) (inOther : Bool) : List Handle := among (h.held.map (·.2)) inOther

variable {h : Handles} {x : Handle} {all rest : List Handle} {name : String} {inOther : Bool}

theorem among_cons : among (x :: rest) inOther = if x.inOther = inOther then x :: among rest inOther
    else among rest inOther := by
  unfold among
  rw [filter_cons]
  simp only [beq_iff_eq]

theorem registry_onRegistry (f : Registry → Registry) (b : Bool) :
    (h.onRegistry inOther f).registry b = if inOther = b then f (h.registry b)
      else h.registry b := by
  cases inOther <;> cases b <;> rfl

theorem held_onRegistry (f : Registry → Registry) : (h.onRegistry inOther f).held = h.held := by
  unfold onRegistry
  split <;> rfl

/-- Both registries count their handles among these. -/
def Counts (h : Handles) (all : List Handle) : Prop :=
  ∀ b, (h.registry b).Counts ((among all b).map Handle.holds)

theorem Counts.perm (counts : h.Counts all) (same : all.Perm rest) : h.Counts rest :=
  fun b => (counts b).perm ((same.filter _).map _)

theorem Counts.release (counts : h.Counts (x :: rest)) : (h.release x).Counts rest := by
  intro b
  have counts := counts b
  unfold Handles.release
  rw [registry_onRegistry]
  rw [among_cons] at counts
  split
  · next here =>
    rw [if_pos here] at counts
    exact counts.release
  · next other =>
    rw [if_neg other] at counts
    exact counts

/-- One registry has a holder more. -/
theorem Counts.hold (counts : h.Counts all) {f : Registry → Registry}
    (more : (f (h.registry x.inOther)).Counts (x.holds :: (among all x.inOther).map Handle.holds)) :
    (h.onRegistry x.inOther f).Counts (x :: all) := by
  intro b
  rw [registry_onRegistry, among_cons]
  split
  · next here =>
    subst here
    exact more
  · exact counts b

/-- The handles that have a name are all there are. -/
structure Sound (h : Handles) : Prop where
  names : h.held.Distinct
  counts : h.Counts (h.held.map (·.2))

theorem held_release : (h.release x).held = h.held := held_onRegistry _

/-- A handle that is counted already gets a name. -/
theorem sound_keep (names : h.held.Distinct) (counts : h.Counts (x :: h.held.map (·.2))) :
    (h.keep name x).Sound := by
  unfold keep
  cases is : h.held.find? name with
  | none =>
    refine ⟨names.bind name x, ?_⟩
    show h.Counts (x :: (h.held.unbind name).map (·.2))
    rw [Named.unbind_of_find?_eq_none is]
    exact counts
  | some old =>
    have same := (names.perm_unbind is).map (·.2)
    have left : (h.release old).Counts (x :: (h.held.unbind name).map (·.2)) :=
      (counts.perm ((same.cons x).trans (.swap ..))).release
    refine ⟨?_, ?_⟩
    · show ((h.release old).held.bind name x).Distinct
      rw [held_release]
      exact names.bind name x
    · show (h.release old).Counts (x :: ((h.release old).held.unbind name).map (·.2))
      rw [held_release]
      exact left

theorem Sound.register (sound : h.Sound) (name : String) (sig : Sig) (inOther : Bool) :
    (h.register name sig inOther).1.Sound := by
  have more := (sound.counts inOther).register sig
  refine sound_keep ?_ ?_
  · rw [held_onRegistry]
    exact sound.names
  · rw [held_onRegistry]
    exact sound.counts.hold
      (x := { inOther, token := ((h.registry inOther).register sig).2, sig }) more

theorem Sound.clone (sound : h.Sound) {source : String} {h' : Handles}
    (is : h.clone name source = some (h', x)) : h'.Sound := by
  obtain ⟨_, found, is⟩ := Option.map_eq_some_iff.1 is
  cases is
  have mem : x ∈ among (h.held.map (·.2)) x.inOther :=
    mem_filter.2 ⟨mem_map.2 ⟨_, Named.mem_of_find? found, rfl⟩, beq_self_eq_true _⟩
  have known := (sound.counts x.inOther).known x.token x.sig (mem_map.2 ⟨x, mem, rfl⟩)
  refine sound_keep ?_ ?_
  · rw [held_onRegistry]
    exact sound.names
  · rw [held_onRegistry]
    exact sound.counts.hold ((sound.counts x.inOther).retain known)

theorem Sound.drop (sound : h.Sound) (name : String) : (h.drop name).1.Sound := by
  unfold Handles.drop
  cases is : h.held.find? name with
  | none => exact sound
  | some handle =>
    refine ⟨sound.names.unbind name, ?_⟩
    exact (sound.counts.perm ((sound.names.perm_unbind is).map (·.2))).release

theorem Sound.perform (sound : h.Sound) (request : Request) : (h.perform request).Sound := by
  cases request with
  | register name sig inOther => exact sound.register name sig inOther
  | clone name source =>
    show ((h.clone name source).elim h (·.1)).Sound
    cases is : h.clone name source with
    | none => exact sound
    | some result => exact sound.clone is
  | drop name => exact sound.drop name

theorem sound_empty : Sound {} := by
  refine ⟨Named.distinct_nil, fun b => ?_⟩
  cases b <;> exact counts_empty

theorem sound_run (requests : List Request) : (run {} requests).Sound := by
  have from' : ∀ (requests : List Request) (h : Handles), h.Sound → (h.run requests).Sound := by
    intro requests
    induction requests with
    | nil => exact fun h sound => sound
    | cons request requests ih => exact fun h sound => ih _ (sound.perform request)
  exact from' requests {} sound_empty

/-- After any requests, in each registry: tokens and signatures lead to each other; every entry has
as many holders as there are handles with its token, and at least one; handles have equal tokens
exactly if their signatures are equal, no token is null, and a handle's token stands for its
signature; and there are as many entries as there are signatures among the handles. -/
theorem run_counts (requests : List Request) (inOther : Bool) :
    let r := (run {} requests).registry inOther
    let live := (run {} requests).live inOther
    (∀ sig token, r.find? sig = some token ↔ r.lookup token = some sig) ∧
    (∀ token e, r.get? token = some e → e.holders = live.countP (·.token = token) ∧ 0 < e.holders) ∧
    (∀ x ∈ live, ∀ y ∈ live, x.token = y.token ↔ x.sig = y.sig) ∧
    (∀ x ∈ live, x.token ≠ nullToken ∧ r.lookup x.token = some x.sig) ∧
    r.len = (live.map (·.sig)).toFinset.card ∧
    (live = [] → r.isEmpty) := by
  intro r live
  have keeps : r.Counts (live.map Handle.holds) := (sound_run requests).counts inOther
  have held : ∀ x ∈ live, (x.token, x.sig) ∈ live.map Handle.holds :=
    fun x mem => mem_map.2 ⟨x, mem, rfl⟩
  have len : r.len = (live.map (·.sig)).toFinset.card := by
    have len := keeps.len_eq
    rwa [map_map] at len
  refine ⟨fun sig token => keeps.find?_iff, ?_, ?_, ?_, len, ?_⟩
  · intro token e is
    obtain ⟨pos, counts⟩ := keeps.counts token e is
    refine ⟨?_, pos⟩
    rw [counts, map_map, count_eq_countP, countP_map]
    rfl
  · exact fun x mem y mem' => keeps.token_eq_iff (held x mem) (held y mem')
  · exact fun x mem => ⟨keeps.token_pos (held x mem), keeps.known _ _ (held x mem)⟩
  · intro none'
    rw [none'] at len
    rw [isEmpty, len]
    rfl

end Handles
end Wasmill.Registry
