import Wasmill.Proofs.Generator.Places

/-! Room in global data.

Signatures, function imports, tables and globals each take a slot of global data. Main statement:
after any history the slots are aligned, apart from each other and inside global data, and what
would end behind the last place that 32 bits can name is refused without effect. Rounding up to a
multiple of the alignment comes before that check. In the last bytes it does not fit into 32 bits
itself, and those bytes are reached: there a declaration ends the program. -/
namespace Wasmill
open Code Steps

namespace Generator
variable {g : Generator} {d : Declaration} {size align : Nat}

/-- The slot of global data that a declaration takes: its size, and what its place is a multiple of.
-/
def Declaration.slot? : Declaration → Option (Nat × Nat)
  | .sig _ => some (Env.sigTokenSize, Env.sigTokenSize)
  | .funcImport _ _ => some (Env.exitRecordSize, 8)
  | .table _ _ => some (Env.tableHandleSize, 8)
  | .globalImport _ ty => some (ty.content.byteSize, ty.content.byteSize)
  | .global ty _ => some (ty.content.byteSize, ty.content.byteSize)
  | _ => none

/-- The generator with so many bytes of global data in use. -/
def filledTo (g : Generator) (len : Nat) : Generator :=
  { g with env := { g.env with globalDataLen := len } }

/-- Where a slot of global data would end. -/
def slotEnd (g : Generator) (size align : Nat) : Nat := Env.alignUp g.env.globalDataLen align + size

/-- How a step ends that has to find room for a slot: it finds it exactly if the slot ends in time,
as long as rounding up fits into 32 bits. -/
def Reserved (g : Generator) (size align : Nat) (outcome : Except Error Generator) : Prop :=
  if g.env.globalDataLen + align < UInt32.size then
    if g.slotEnd size align < UInt32.size then ∃ g', outcome = .ok g' ∧
      g'.env.globalDataLen = g.slotEnd size align
    else outcome = .error (.limit .globalData 0xffffffff)
  else outcome = .error .panic

/-! ### Checks, then room -/

/-- A step, with so many bytes in use, fails in any case or reserves a slot and makes a generator of
it. -/
def Seeks (g : Generator) (size align : Nat) (step : Nat → Except Error Generator) : Prop :=
  (∃ e, ∀ len, step len = .error e) ∨ ∃ make : Nat × Env → Generator,
    (∀ len, step len = ((g.filledTo len).env.reserve size align).map make) ∧
    ∀ x, (make x).env.globalDataLen = x.2.globalDataLen

section
variable {α β : Type} {f : α → Generator}

theorem Seeks.room (make : Nat × Env → α)
    (len : ∀ x, (f (make x)).env.globalDataLen = x.2.globalDataLen) :
    g.Seeks size align fun len =>
      ((g.filledTo len).env.reserve size align >>= fun x => .ok (make x)).map f := by
  refine .inr ⟨f ∘ make, fun len => ?_, len⟩
  dsimp only
  cases (g.filledTo len).env.reserve size align <;> rfl

/-- A check that does not depend on how much is in use comes first. -/
theorem Seeks.check {step : β → Nat → Except Error α} (test : Except Error β)
    (h : ∀ b, g.Seeks size align fun len => (step b len).map f) : g.Seeks size align fun len =>
      (test >>= fun b => step b len).map f := by
  cases test with
  | error e => exact .inl ⟨e, fun _ => rfl⟩
  | ok b => exact h b

theorem Seeks.guard (p : Prop) [Decidable p] (e : Error) {step : Nat → Except Error α}
    (h : g.Seeks size align fun len => (step len).map f) :
    g.Seeks size align fun len => (if p then .error e else step len).map f := by
  by_cases refuse : p
  · simp only [if_pos refuse]
    exact .inl ⟨e, fun len => rfl⟩
  · simp only [if_neg refuse]
    exact h

end

theorem seeks_placeGlobal (ty : GlobalType) (init : GlobalInit) (more : Nat) :
    g.Seeks ty.content.byteSize ty.content.byteSize fun len =>
      ((g.filledTo len).placeGlobal ty init).map fun (_, placed) =>
      { placed with importCount := placed.importCount + more } :=
  .check g.checkOpen fun _ =>
    .check (Env.checkLimit .globals g.env.globals.size g.env.limits.globals) fun _ => .room
    (fun x => (g.env.globals.size,
      { g with env := { x.2 with globals := x.2.globals.push { ty, init, place := x.1 } } }))
    fun _ => rfl

/-- Where only room has to be found, a declaration is accepted exactly if there is room. -/
theorem Seeks.ends {step : Nat → Except Error Generator} (h : g.Seeks size align step)
    {g₀ : Generator} (fine : step 0 = .ok g₀) :
    g.Reserved size align (step g.env.globalDataLen) := by
  rcases h with ⟨e, failed⟩ | ⟨make, is, len⟩
  · rw [failed] at fine
    cases fine
  · rw [is]
    show g.Reserved size align ((g.env.reserve size align).map make)
    unfold Env.reserve Reserved slotEnd
    dsimp only
    split
    · split
      · exact ⟨_, rfl, len _⟩
      · rfl
    · rfl

theorem seeks_declared (slot : d.slot? = some (size, align)) : g.Seeks size align fun len =>
    (g.filledTo len).declared d := by
  cases d with
  | sig sig =>
    cases slot
    exact .check g.checkOpen fun _ =>
      .check (Env.checkLimit .types g.env.sigs.size g.env.limits.types) fun _ =>
      .guard (sig.params.length > g.env.limits.params) (.limit .params g.env.limits.params) (.room
      (fun x => (g.env.sigs.size,
        { g with env := { x.2 with sigs := x.2.sigs.push sig, sigTokens := x.2.sigTokens.push x.1 } }))
      fun _ => rfl)
  | funcImport source sig =>
    cases slot
    exact .check g.checkOpen fun _ => .check g.checkImports fun _ =>
      .check (g.env.checkSig sig) fun _ =>
      .guard (g.env.funcs.size ≠ g.env.funcImports.size) (.internal .importAfterFunction) (.room
      (fun x => (g.env.funcs.size, { g with
        env := { x.2 with
          funcImports := x.2.funcImports.push { source, sig, record := x.1 }
          funcs := x.2.funcs.push sig }
        importCount := g.importCount + 1 })) fun _ => rfl)
  | table bounds source =>
    cases slot
    have room : g.Seeks Env.tableHandleSize 8 _ := Seeks.guard (f := fun x : Nat × Generator => x.2)
      (bounds.initial > g.env.limits.tableElems ∨ bounds.maximum.any (· > g.env.limits.tableElems))
      (.limit .tableElems g.env.limits.tableElems) (.room
      (fun x => (g.env.tables.size, { g with
        env := { x.2 with tables := x.2.tables.push { bounds, source, handle := x.1 } }
        importCount := g.importCount + imported source })) fun _ => rfl)
    refine .check g.checkOpen fun _ => ?_
    cases source with
    | none => exact room
    | some _ => exact .check g.checkImports fun _ => room
  | globalImport source ty =>
    cases slot
    refine .check g.checkImports fun _ => ?_
    have placed := seeks_placeGlobal (g := g) ty (.imported source) 1
    refine (congrArg (g.Seeks _ _) (funext fun len => ?_)).mp placed
    cases (g.filledTo len).placeGlobal ty (.imported source) <;> rfl
  | global ty init =>
    cases slot
    have placed (t : ValType) := Seeks.guard (t ≠ ty.content) (.invalid .globalInitType 0)
      (seeks_placeGlobal (g := g) ty (.const init) 0)
    cases init with
    | const v => exact placed v.ty
    | globalGet index => exact .check (g.initTy (.globalGet index)) placed
  | _ => cases slot

/-- After any history, slots of global data are aligned, apart from each other and inside; a
declaration that is refused has no effect; and a declaration for which only room has to be found is
accepted exactly if there is room. -/
theorem room_after (config : Config) (history : List Request) : let g := (new config).after history
    g.env.Spread ∧
      (∀ d e, g.declared d = .error e → ((Request.declare d).perform g).2 = g) ∧
      ∀ d size align, d.slot? = some (size, align) → (∃ g₀, (g.filledTo 0).declared d = .ok g₀) →
        g.Reserved size align (g.declared d) := by
  refine ⟨(coherent_after config history).spread, fun d e refused => ?_,
    fun d size align slot ⟨g₀, fine⟩ => ?_⟩
  · refine Leads.state (P := (· = (new config).after history)) ?_
    rw [Request.perform, Gen.leads_declare, refused]
  · exact (seeks_declared slot).ends fine

/-! ### The last bytes -/

/-- As many globals as 32 bits can count may be declared. -/
def vast : Config := { limits := { globals := 0xffffffff } }

/-- A global that takes sixteen bytes. -/
def vector : Declaration := .global ⟨.v128, true⟩ (.const (.v128 0))

/-- Nothing but so many vectors is declared. -/
structure Vectors (g : Generator) (n : Nat) : Prop where
  opened : g.frozen = false
  limits : g.env.limits = vast.limits
  count : g.env.globals.size = n
  len : g.env.globalDataLen = 16 * n

theorem Vectors.declared {n : Nat} (h : Vectors g n) (few : n < 0xffffffff) :
    if 16 * n + 16 < UInt32.size then ∃ g', g.declared vector = .ok g' ∧ Vectors g' (n + 1)
    else g.declared vector = .error .panic := by
  have aligned : Env.alignUp g.env.globalDataLen 16 = 16 * n := by
    rw [h.len]
    unfold Env.alignUp
    omega
  have opened : g.checkOpen = .ok () := by rw [checkOpen, h.opened]; rfl
  have limit : Env.checkLimit .globals g.env.globals.size g.env.limits.globals = .ok () := by
    rw [Env.checkLimit, h.count, h.limits]
    exact if_pos few
  have made : g.declared vector = (g.env.reserve 16 16).map fun x => { g with env := { x.2 with
      globals := x.2.globals.push ⟨⟨.v128, true⟩, .const (.const (.v128 0)), x.1⟩ } } := by
    show Except.map _ (g.checkOpen >>= fun _ =>
      Env.checkLimit .globals g.env.globals.size g.env.limits.globals >>= fun _ =>
      g.env.reserve 16 16 >>= _) = _
    rw [opened, limit]
    cases g.env.reserve 16 16 <;> rfl
  rw [made]
  unfold Env.reserve
  dsimp only
  rw [aligned, h.len]
  split
  · refine ⟨_, rfl, h.opened, h.limits, ?_, rfl⟩
    rw [Array.size_push, h.count]
  · rfl

theorem vectors_after (n : Nat) (room : 16 * n < UInt32.size) :
    Vectors ((new vast).after (List.replicate n (.declare vector))) n := by
  induction n with
  | zero => exact ⟨rfl, rfl, rfl, rfl⟩
  | succ n ih =>
    have vectors := ih (by omega)
    have size : UInt32.size = 4294967296 := rfl
    have declared := vectors.declared (by omega)
    rw [if_pos (by omega)] at declared
    obtain ⟨g', is, more⟩ := declared
    have last :
        Leads (Request.declare vector).perform ((new vast).after (List.replicate n (.declare vector)))
        (fun _ g => Vectors g (n + 1)) (fun _ g => Vectors g (n + 1)) := by
      rw [Request.perform, Gen.leads_declare, is]
      exact more
    rw [List.replicate_succ', after, List.foldl_append]
    exact last.state (P := (Vectors · (n + 1)))

/-- One vector short of all that 32 bits can address, rounding up for one more goes beyond 32 bits.
-/
theorem rounding_overflows : ∃ size align, vector.slot? = some (size, align) ∧
    let g := (new vast).after (List.replicate 0xfffffff (.declare vector))
    UInt32.size ≤ g.env.globalDataLen + align ∧ g.declared vector = .error .panic := by
  have vectors := vectors_after 0xfffffff (by decide)
  have declared := vectors.declared (by decide)
  rw [if_neg (by decide)] at declared
  have len := vectors.len
  have size : UInt32.size = 4294967296 := rfl
  exact ⟨16, 16, rfl, by omega, declared⟩

end Generator
end Wasmill
