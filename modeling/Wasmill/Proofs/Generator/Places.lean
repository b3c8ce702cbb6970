import Wasmill.Proofs.Generator.FittingCode

/-! Where things lie in global data.

Every token, exit record, table handle and global gets a stretch of global data of its own. This is
so after any history: only declarations change what is declared, and they only add to it. -/
namespace Wasmill
open Code Steps

/-- Two stretches, each a place and a size, have nothing in common. -/
def Apart (x y : Nat × Nat) : Prop := x.1 + x.2 ≤ y.1 ∨ y.1 + y.2 ≤ x.1

namespace Env

/-- What lies in global data, each kind by its index. -/
inductive Item
  | token (sig : Nat)
  | record (index : Nat)
  | handle (table : Nat)
  | global (index : Nat)

/-- Where it lies, and how much room it has there. -/
def stretch? (env : Env) : Item → Option (Nat × Nat)
  | .token k => env.sigs[k]?.map fun _ => (env.sigToken k, sigTokenSize)
  | .record k => env.funcImports[k]?.map fun i => (i.record, exitRecordSize)
  | .handle k => env.tables[k]?.map fun t => (t.handle, tableHandleSize)
  | .global k => env.globals[k]?.map fun g => (g.place, g.ty.content.byteSize)

/-- What its place is a multiple of, if it has so much room. -/
def Item.alignment (size : Nat) : Item → Nat
  | .record _ => 8
  | _ => size

/-- All that lies in global data has room of its own there. -/
structure Spread (env : Env) : Prop where
  inside : ∀ a x, env.stretch? a = some x → x.1 + x.2 ≤ env.globalDataLen
  apart : ∀ a b x y, env.stretch? a = some x → env.stretch? b = some y → a ≠ b → Apart x y
  aligned : ∀ a x, env.stretch? a = some x → a.alignment x.2 ∣ x.1
  small : env.globalDataLen < UInt32.size

section
variable {env env' : Env} {count count' : Nat} {d : Generator.Declaration}

/-- A stretch behind all others. -/
theorem Spread.add (h : env.Spread) {x : Nat × Nat} {a : Item}
    (room : env.Room x.1 x.2 (a.alignment x.2))
    (len : env'.globalDataLen = x.1 + x.2) (new : ∀ b y,
      env'.stretch? b = some y → env.stretch? b = some y ∨ b = a ∧ y = x) : env'.Spread where
  inside b y is := by
    rw [len]
    rcases new b y is with old | ⟨-, rfl⟩
    · exact Nat.le_trans (h.inside b y old) (Nat.le_trans room.low (Nat.le_add_right _ _))
    · exact Nat.le_refl _
  apart b c y z is is' ne := by
    rcases new b y is with old | ⟨rfl, rfl⟩
    · rcases new c z is' with old' | ⟨rfl, rfl⟩
      · exact h.apart b c y z old old' ne
      · exact .inl (Nat.le_trans (h.inside b y old) room.low)
    · rcases new c z is' with old' | ⟨rfl, rfl⟩
      · exact .inr (Nat.le_trans (h.inside c z old') room.low)
      · exact absurd rfl ne
  aligned b y is := by
    rcases new b y is with old | ⟨rfl, rfl⟩
    · exact h.aligned b y old
    · exact room.aligned
  small := len ▸ room.small

theorem Spread.same (h : env.Spread) (len : env'.globalDataLen = env.globalDataLen)
    (same : ∀ a, env'.stretch? a = env.stretch? a) : env'.Spread :=
  ⟨fun a x is => len ▸ h.inside a x (same a ▸ is),
    fun a b x y is is' => h.apart a b x y (same a ▸ is) (same b ▸ is'),
    fun a x is => h.aligned a x (same a ▸ is), len ▸ h.small⟩

theorem map_push {α β : Type} {xs : Array α} {x : α} {f : α → β} {k : Nat} {y : β}
    (is : (xs.push x)[k]?.map f = some y) :
    xs[k]?.map f = some y ∨ k = xs.size ∧ y = f x := by
  rw [Array.getElem?_push] at is
  split at is
  · next last => exact .inr ⟨last, (Option.some.inj is).symm⟩
  · exact .inl is

theorem sigToken_push_of_lt (listed : env.sigTokens.listed.size = env.sigs.size) {sig : Sig}
    {place len k : Nat} (lt : k < env.sigs.size) :
    ({ env with sigs := env.sigs.push sig, sigTokens := env.sigTokens.push place, globalDataLen :=
  len } : Env).sigToken k =
      env.sigToken k := by
  simp [sigToken, TokenPlaces.get, TokenPlaces.push, Array.getElem?_push,
    Nat.ne_of_lt (listed ▸ lt)]

theorem Spread.adds (h : env.Spread) (listed : env.sigTokens.listed.size = env.sigs.size)
    (adds : env.Adds count d env' count') : env'.Spread := by
  cases adds with
  | @sig sig place few params room =>
    refine h.add (x := (place, sigTokenSize)) (a := .token env.sigs.size) room rfl fun b y is => ?_
    cases b with
    | token k =>
      rcases map_push is with old | ⟨rfl, rfl⟩
      · obtain ⟨_, known, rfl⟩ := Option.map_eq_some_iff.1 old
        have lt := (Array.getElem?_eq_some_iff.1 known).1
        refine .inl ?_
        rw [sigToken_push_of_lt listed lt]
        exact Option.map_eq_some_iff.2 ⟨_, known, rfl⟩
      · refine .inr ⟨rfl, ?_⟩
        simp [sigToken, TokenPlaces.get, TokenPlaces.push, ← listed]
    | _ => exact .inl is
  | @funcImport source sig record few known first room =>
    refine h.add (x := (record, exitRecordSize)) (a := .record env.funcImports.size) room rfl
      fun b y is => ?_
    cases b with
    | record k => exact (map_push is).imp id fun ⟨last, is⟩ => ⟨congrArg _ last, is⟩
    | _ => exact .inl is
  | @table bounds source handle few within room =>
    refine h.add (x := (handle, tableHandleSize)) (a := .handle env.tables.size) room rfl
      fun b y is => ?_
    cases b with
    | handle k => exact (map_push is).imp id fun ⟨last, is⟩ => ⟨congrArg _ last, is⟩
    | _ => exact .inl is
  | memory first few within => exact h.same rfl fun a => by cases a <;> rfl
  | @global d ty init more place is imports typed few room =>
    refine h.add (x := (place, ty.content.byteSize)) (a := .global env.globals.size) room rfl
      fun b y is => ?_
    cases b with
    | global k => exact (map_push is).imp id fun ⟨last, is⟩ => ⟨congrArg _ last, is⟩
    | _ => exact .inl is
  | func few known => exact h.same rfl fun a => by cases a <;> rfl

theorem Adds.listed (adds : env.Adds count d env' count')
    (listed : env.sigTokens.listed.size = env.sigs.size) :
    env'.sigTokens.listed.size = env'.sigs.size := by
  cases adds with
  | sig few params room => simp [TokenPlaces.push, listed]
  | _ => exact listed

theorem spread_new (mode : InterruptMode) (limits : Limits) :
    Spread { interruptMode := mode, limits } := by
  have none (a : Item) (x : Nat × Nat) :
      ({ interruptMode := mode, limits } : Env).stretch? a ≠ some x := by
    cases a <;> simp [stretch?]
  exact ⟨fun a x is => absurd is (none a x), fun a b x y is => absurd is (none a x),
    fun a x is => absurd is (none a x),
    (by decide : 0 < UInt32.size)⟩

end
end Env

namespace Generator
variable {g g' : Generator}

/-- What is declared fits together. -/
structure Coherent (g : Generator) : Prop where
  listed : g.env.sigTokens.listed.size = g.env.sigs.size
  spread : g.env.Spread

theorem Coherent.accepts {d : Declaration} (h : Coherent g) (accepts : Accepts g d g') :
    Coherent g' := by
  cases accepts with
  | adds opened adds => exact ⟨adds.listed h.listed, h.spread.adds h.listed adds⟩
  | _ => exact { h with }

theorem Coherent.alike (h : Coherent g) (alike : Alike g g') : Coherent g' :=
  ⟨alike.env ▸ h.listed, alike.env ▸ h.spread⟩

/-- What is declared fits together after any history. -/
theorem coherent_after (config : Config) (history : List Request) :
    Coherent ((new config).after history) :=
  after_keeps Coherent.alike Coherent.accepts ⟨rfl, Env.spread_new _ _⟩ history

end Generator
end Wasmill
