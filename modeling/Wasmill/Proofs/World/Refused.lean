import Wasmill.Proofs.World.Claims
import Wasmill.Proofs.World.Filed

/-! Instantiation that is refused.

Before an instance is made, tables that are given become the engine's own and the signatures that
its indirect calls expect are registered. If a check fails, the signatures are released again; the
tables keep their engine. Main statement: that is all a refused instantiation leaves behind. -/
namespace Wasmill
open List
namespace World

/-- Tables among those given that had no engine belong to this one now; nothing else is different.
-/
structure TakesTables (w w' : World) (engine : Nat) (given : List Nat) : Prop where
  rest : w' = { w with tables := w'.tables }
  tables : ∀ t : Nat, w'.tables[t]? = w.tables[t]? ∨ t ∈ given ∧ ∃ tbl, w.tables[t]? = some tbl ∧
    tbl.engine = none ∧
    w'.tables[t]? = some { tbl with engine := some engine }

/-- What a refused instantiation leaves behind: engines with the registrations they had, and tables
that are as they were or, among those given, have become the engine's own. -/
structure Spared (w w' : World) (engine : Nat) (given : List Nat) : Prop where
  rest : w' = { w with engines := w'.engines, tables := w'.tables }
  configs : w'.engines.map (·.config) = w.engines.map (·.config)
  registries : ∀ (e : Nat) eng eng', w.engines[e]? = some eng → w'.engines[e]? = some eng' →
    eng.registry.SameHolders eng'.registry
  tables : ∀ t : Nat, w'.tables[t]? = w.tables[t]? ∨ t ∈ given ∧ ∃ tbl, w.tables[t]? = some tbl ∧
    tbl.engine = none ∧
    w'.tables[t]? = some { tbl with engine := some engine }

variable {w w' w'' : World} {engine : Nat} {given more sigs tokens : List Nat} {env : Env}

/-! ### Tables that are given -/

theorem TakesTables.refl (w : World) (engine : Nat) (given : List Nat) :
    w.TakesTables w engine given := ⟨rfl, fun _ => .inl rfl⟩

theorem TakesTables.weaken (h : w.TakesTables w' engine given) (sub : given ⊆ more) :
    w.TakesTables w' engine more :=
  ⟨h.rest, fun t => (h.tables t).imp_right fun ⟨mem, bound⟩ => ⟨sub mem, bound⟩⟩

theorem TakesTables.trans (one : w.TakesTables w' engine given)
    (two : w'.TakesTables w'' engine given) : w.TakesTables w'' engine given := by
  refine ⟨by rw [two.rest, one.rest], fun t => ?_⟩
  rcases two.tables t with same | ⟨mem, tbl, was, free, now⟩
  · rw [same]
    exact one.tables t
  · rcases one.tables t with same | ⟨-, tbl', -, -, now'⟩
    · exact .inr ⟨mem, tbl, same ▸ was, free, now⟩
    · -- a table is bound once
      rw [was] at now'
      cases now'
      cases free

theorem resolveTable_takes {desc : TableDesc} {source : ImportName} {id : Nat}
    (is : w.resolveTable engine desc source id = .ok w') : w.TakesTables w' engine [id] := by
  obtain ⟨-, rfl⟩ | ⟨tbl, bound, there, -, own, rfl⟩ := resolveTable_ok is
  · exact .refl w' engine [id]
  · obtain ⟨rfl, was⟩ := bind?_eq_some own
    have elsewhere : ∀ t, t ≠ id →
        (w.onTable id fun _ => { tbl with engine := some engine }).tables[t]? = w.tables[t]? :=
      fun t ne => (Array.getElem?_modify ..).trans (if_neg (Ne.symm ne))
    have here : (w.onTable id fun _ => { tbl with engine := some engine }).tables[id]? = some
      { tbl with engine := some engine } := by
      refine (Array.getElem?_modify ..).trans ?_
      rw [if_pos rfl, there]
      rfl
    refine ⟨rfl, fun t => ?_⟩
    by_cases at' : t = id
    · subst at'
      rcases was with same | free
      · exact .inl (by rw [here, there, ← same])
      · exact .inr ⟨mem_singleton_self t, tbl, there, free, here⟩
    · exact .inl (elsewhere t at')

theorem resolveTables_takes (descs : List TableDesc) (given : List Nat) :
    w.TakesTables (w.resolveTables engine descs given).1 engine given := by
  fun_induction resolveTables w engine descs given with
  | case1 | case2 | case4 | case5 => exact .refl _ _ _
  | case3 w desc descs given source w' rest is ih =>
    rw [is] at ih
    exact ih
  | case6 w desc descs source id given source' w' resolved w'' rest is ih =>
    rw [is] at ih
    have one : TakesTables _ _ _ (id :: given) := (resolveTable_takes resolved).weaken (by simp)
    exact one.trans (ih.weaken fun _ mem => mem_cons_of_mem id mem)

/-! ### Signatures that are registered -/

/-- What signatures claim under these tokens. -/
def tokenClaims (engine : Nat) (env : Env) (sigs tokens : List Nat) : List Claim :=
  (sigs.zip tokens).map fun (sig, token) => ⟨engine, token, env.sigs.getD sig ⟨[], none⟩⟩

theorem engine_of_mem_tokenClaims {env : Env} {sigs tokens : List Nat} {c : Claim}
    (mem : c ∈ tokenClaims engine env sigs tokens) :
    c.engine = engine := by
  obtain ⟨_, -, rfl⟩ := mem_map.1 mem
  rfl

theorem map_token_tokenClaims {env : Env} {sigs tokens : List Nat}
    (le : tokens.length ≤ sigs.length) :
    (tokenClaims engine env sigs tokens).map (·.token) = tokens := by
  rw [tokenClaims, map_map]
  exact map_snd_zip le

theorem rest_register (engine : Nat) (sig : Sig) :
    (w.register engine sig).1 = { w with engines := (w.register engine sig).1.engines } := by
  unfold register
  split <;> rfl

/-- An engine that is not there registers nothing. -/
theorem register_of_le (none : w.engines.size ≤ engine) (sig : Sig) :
    (w.register engine sig).1 = w := by
  unfold register
  rw [Array.getElem?_eq_none none]

theorem configs_onEngine {e : Nat} {f : Engine → Engine} (same : ∀ e, (f e).config = e.config) :
    (w.onEngine e f).engines.map (·.config) = w.engines.map (·.config) := map_modify_eq same

theorem configs_register (engine : Nat) (sig : Sig) :
    (w.register engine sig).1.engines.map (·.config) = w.engines.map (·.config) := by
  unfold register
  split
  · exact configs_onEngine fun _ => rfl
  · rfl

theorem configs_releaseAll (engine : Nat) (tokens : List Nat) :
    (w.releaseAll engine tokens).engines.map (·.config) = w.engines.map (·.config) := by
  unfold releaseAll
  induction tokens generalizing w with
  | nil => rfl
  | cons token tokens ih => exact ih.trans (configs_onEngine fun _ => rfl)

/-- Placing tokens registers the signatures in order, up to one whose token has no place. -/
structure TokensPlaced (w : World) (engine : Nat) (env : Env) (sigs tokens : List Nat)
    (w' : World) : Prop where
  rest : w' = { w with engines := w'.engines }
  configs : w'.engines.map (·.config) = w.engines.map (·.config)
  some' : tokens.length ≤ sigs.length
  absent : w.engines.size ≤ engine → w' = w
  counts : engine < w.engines.size → ∀ all, w.Counts all →
    w'.Counts (tokenClaims engine env sigs tokens ++ all)

theorem placeTokens_placed (env : Env) (sigs : List Nat) (data : GlobalData) (before : List Nat) :
    ∃ tokens, (w.placeTokens engine env sigs data before).2.1 = before.reverse ++ tokens ∧
      w.TokensPlaced engine env sigs tokens (w.placeTokens engine env sigs data before).1 := by
  induction sigs generalizing w data before with
  | nil =>
    exact ⟨[], by simp [placeTokens], rfl, rfl, by simp, fun _ => rfl, fun _ all counts => counts⟩
  | cons sig sigs ih =>
    let stands := env.sigs.getD sig ⟨[], none⟩
    have size : (w.register engine stands).1.engines.size = w.engines.size :=
      size_of_map_eq (configs_register engine _)
    unfold placeTokens
    dsimp only
    split
    · next data' written =>
      obtain ⟨tokens, out, placed⟩ :=
        ih (w := (w.register engine stands).1) data' ((w.register engine stands).2 :: before)
      refine ⟨(w.register engine stands).2 :: tokens, by rw [out]; simp, placed.rest.trans ?_,
        placed.configs.trans (configs_register _ _), Nat.succ_le_succ placed.some', fun none =>
          ?_, fun there all counts => ?_⟩
      · rw [rest_register]
      · exact (placed.absent (size ▸ none)).trans (register_of_le none _)
      · exact (placed.counts (size ▸ there) _ (counts.register there stands)).perm perm_middle
    · next fault unwritten =>
      refine ⟨[(w.register engine stands).2], reverse_cons, rest_register _ _, configs_register _ _,
        Nat.succ_le_succ (Nat.zero_le _), fun none =>
          register_of_le none _, fun there all counts => ?_⟩
      rw [tokenClaims, zip_cons_cons, zip_nil_right]
      exact counts.register there stands

theorem counts_of_filed (h : w.Filed) : ∃ all, w.Counts all := by
  have each : ∀ e : Nat, ∃ held, ∀ eng, w.engines[e]? = some eng → eng.registry.Counts held := by
    intro e
    cases is : w.engines[e]? with
    | none => exact ⟨[], fun eng => nofun⟩
    | some eng =>
      obtain ⟨held, keeps⟩ := h e eng is
      exact ⟨held, fun eng' same => Option.some.inj same ▸ keeps⟩
  choose held keeps using each
  let claims (e : Nat) : List Claim := (held e).map fun (token, sig) => ⟨e, token, sig⟩
  have own : ∀ e, (claims e).filterMap (·.at? e) = held e := by
    intro e
    simp [claims, filterMap_map, Claim.at?]
  have other : ∀ j e, j ≠ e → (claims j).filterMap (·.at? e) = [] := by
    intro j e ne
    simp [claims, filterMap_map, Claim.at?, ne]
  have among : ∀ n e, ((List.range n).flatMap claims).filterMap (·.at? e) = if e < n then held e
      else [] := by
    intro n e
    induction n with
    | zero => rfl
    | succ n ih =>
      rw [range_succ, flatMap_append, filterMap_append, ih, flatMap_singleton]
      rcases Nat.lt_trichotomy e n with lt | rfl | gt
      · rw [other n e (by omega), if_pos lt, if_pos (by omega), append_nil]
      · rw [own, if_neg (by omega), if_pos (by omega), nil_append]
      · rw [other n e (by omega), if_neg (by omega), if_neg (by omega), append_nil]
  refine ⟨(List.range w.engines.size).flatMap claims, fun e eng is => ?_⟩
  rw [among, if_pos (Array.getElem?_eq_some_iff.1 is).1]
  exact keeps e eng is

theorem releaseAll_of_le (none : w.engines.size ≤ engine) (tokens : List Nat) :
    w.releaseAll engine tokens = w := by
  unfold releaseAll
  induction tokens with
  | nil => rfl
  | cons token tokens ih =>
    have same : w.release engine token = w := by
      unfold release onEngine
      have engines : ∀ f, w.engines.modify engine f = w.engines := by
        intro f
        refine Array.ext_getElem? fun k => ?_
        rw [Array.getElem?_modify]
        split
        · next here => rw [Array.getElem?_eq_none (by omega)]; rfl
        · rfl
      rw [engines]
    rw [foldl_cons, same, ih]

theorem rest_releaseAll (engine : Nat) (tokens : List Nat) :
    w.releaseAll engine tokens = { w with engines := (w.releaseAll engine tokens).engines } := by
  unfold releaseAll
  induction tokens generalizing w with
  | nil => rfl
  | cons token tokens ih => exact ih.trans rfl

/-- Tokens that were placed and are released again leave no trace. -/
theorem TokensPlaced.released (placed : w.TokensPlaced engine env sigs tokens w') (h : w.Filed) :
    w.Spared (w'.releaseAll engine tokens) engine [] := by
  have counted : ∃ all, w.Counts all ∧ (w'.releaseAll engine tokens).Counts all := by
    obtain ⟨all, counts⟩ := counts_of_filed h
    refine ⟨all, counts, ?_⟩
    by_cases there : engine < w.engines.size
    · have released := (placed.counts there all counts).releaseAll fun c mem =>
        engine_of_mem_tokenClaims mem
      rwa [map_token_tokenClaims placed.some'] at released
    · have absent := placed.absent (Nat.le_of_not_lt there)
      subst absent
      rwa [releaseAll_of_le (Nat.le_of_not_lt there)]
  obtain ⟨all, before, after⟩ := counted
  exact {
    rest := by rw [rest_releaseAll, placed.rest]
    configs := (configs_releaseAll engine tokens).trans placed.configs
    registries := fun e eng eng' was now => (before e eng was).sameHolders (after e eng' now)
    tables := fun t => .inl (by rw [rest_releaseAll, placed.rest]) }

/-! ### Refusals -/

theorem TakesTables.spared (h : w.TakesTables w' engine given) : w.Spared w' engine given := by
  have engines : w'.engines = w.engines := by rw [h.rest]
  refine ⟨by rw [h.rest], by rw [engines], fun e eng eng' was now => ?_, h.tables⟩
  rw [engines, was] at now
  cases now
  exact .refl _

/-- What is left behind by binding tables, and then by placing tokens and releasing them. -/
theorem TakesTables.then (one : w.TakesTables w' engine given) (two : w'.Spared w'' engine []) :
    w.Spared w'' engine given := by
  have engines : w'.engines = w.engines := by rw [one.rest]
  refine ⟨by rw [two.rest, one.rest], by rw [two.configs, engines], fun e eng eng' was now => ?_,
    fun t => ?_⟩
  · exact two.registries e eng eng' (engines ▸ was) now
  · rcases two.tables t with same | ⟨mem, -⟩
    · rw [same]
      exact one.tables t
    · cases mem

/-- A refused instantiation releases what it registered. -/
theorem instantiate_error {m : Module} {imports : Imports} {e : Error} (h : w.Filed)
    (refused : w.instantiate m engine imports = (w', .error e)) :
    w.Spared w' engine imports.tables := by
  unfold instantiate at refused
  split at refused
  · cases refused
    exact (TakesTables.refl w engine _).spared
  · have bound : w.TakesTables _ engine imports.tables :=
      resolveTables_takes m.env.tables.toList imports.tables
    split at refused
    · next resolved =>
      cases refused
      rw [resolved] at bound
      exact bound.spared
    · next w₁ tables resolved =>
      rw [resolved] at bound
      dsimp only at bound
      split at refused
      · cases refused
        exact bound.spared
      · split at refused
        · cases refused
          exact bound.spared
        · next globals _ =>
          have filed : w₁.Filed := h.same (by rw [bound.rest])
          obtain ⟨tokens, out, placed⟩ := @placeTokens_placed w₁ engine m.env m.indirectSigs.toList
            (.zero m.env.globalDataLen) []
          dsimp only at refused
          split at refused
          · cases refused
            rw [out]
            exact bound.then (placed.released filed)
          · cases refused

end World
end Wasmill
