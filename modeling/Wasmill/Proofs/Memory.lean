import Mathlib.Algebra.GroupWithZero.Nat
import Wasmill.Proofs.Code.Encoding
import Wasmill.Proofs.Machine.Deeds

/-! What memories hold.

A memory is a row of whole pages, read byte by byte. It is changed by growth, by writes from outside
and by stores of running code, each of which is refused or does exactly what it says: growth adds
zeros at the end, a write or a store changes the bytes it is given and no others. Main statement: so
it is after any number of them, for accesses anywhere in 32-bit addresses and beyond, and what was
stored is loaded again. -/
namespace Wasmill
open Steps Array Exec

namespace Memory
variable {m m' : Memory} {place i : Nat}

/-- All pages are whole, and there are not too many. -/
structure Sound (m : Memory) : Prop where
  whole : ∀ p ∈ m.pages, p.size = pageSize
  bounded : m.size ≤ m.most

/-! ### Bytes -/

theorem byteAt_eq (m : Memory) (i : Nat) :
    m.byteAt i = ((m.pages[i / pageSize]?).bind fun p => p.data[i % pageSize]?).getD 0 := by
  unfold byteAt
  rw [getD_eq_getD_getElem?]
  cases m.pages[i / pageSize]? with
  | none => rfl
  | some p => exact getElem!_def ..

theorem setByte_sound (sound : m.Sound) (place : Nat) (b : UInt8) : (m.setByte place b).Sound := by
  refine ⟨fun p mem => ?_, by simpa [setByte, size, most] using sound.bounded⟩
  obtain ⟨k, lt, rfl⟩ := mem_iff_getElem.1 mem
  simp only [setByte, getElem_modify]
  split
  · exact size_setIfInBounds.trans (sound.whole _ (getElem_mem _))
  · exact sound.whole _ (getElem_mem _)

theorem byteSize_setByte (m : Memory) (place : Nat) (b : UInt8) :
    (m.setByte place b).byteSize = m.byteSize := by
  simp [byteSize, size, setByte]

theorem byteAt_setByte (sound : m.Sound) (inside : place < m.byteSize) (b : UInt8) (i : Nat) :
    (m.setByte place b).byteAt i = if i = place then b else m.byteAt i := by
  have page : place / pageSize < m.pages.size := Nat.div_lt_of_lt_mul (by rwa [Nat.mul_comm])
  have whole : (m.pages[place / pageSize]).data.size = pageSize := sound.whole _ (getElem_mem page)
  have within : place % pageSize < pageSize := Nat.mod_lt _ (by decide)
  simp only [byteAt_eq, setByte, getElem?_modify]
  by_cases same : place / pageSize = i / pageSize
  · rw [if_pos same, ← same, getElem?_eq_getElem page]
    show ((m.pages[place / pageSize].data.setIfInBounds (place % pageSize) b)[i % pageSize]?).getD 0
      = _
    rw [getElem?_setIfInBounds, whole, if_pos within]
    by_cases here : i = place
    · simp [here]
    · have apart : place % pageSize ≠ i % pageSize := fun is => here (by
        rw [← Nat.div_add_mod i pageSize, ← same, ← is, Nat.div_add_mod])
      rw [if_neg apart, if_neg here]
      rfl
  · rw [if_neg same, if_neg fun is => same (by rw [is])]

/-- The bytes from a place on are these, and nothing else is different. -/
structure Wrote (m : Memory) (place : Nat) (bytes : List UInt8) (m' : Memory) : Prop where
  bounds : m'.bounds = m.bounds
  size : m'.byteSize = m.byteSize
  these : ∀ k b, bytes[k]? = some b → m'.byteAt (place + k) = b
  others : ∀ i, i < place ∨ place + bytes.length ≤ i → m'.byteAt i = m.byteAt i

theorem setBytes_wrote (sound : m.Sound) {bytes : List UInt8}
    (inside : place + bytes.length ≤ m.byteSize) :
    (m.setBytes place bytes).Sound ∧ m.Wrote place bytes (m.setBytes place bytes) := by
  induction bytes generalizing m place with
  | nil => exact ⟨sound, rfl, rfl, nofun, fun _ _ => rfl⟩
  | cons b bytes ih =>
    rw [List.length_cons] at inside
    have first := byteAt_setByte sound (show place < m.byteSize by omega) b
    have inside : place + 1 + bytes.length ≤ (m.setByte place b).byteSize := by
      rw [byteSize_setByte]; omega
    obtain ⟨sound', rest⟩ := ih (setByte_sound sound place b) inside
    refine ⟨sound', rest.bounds, rest.size.trans (byteSize_setByte ..), fun k b' is => ?_,
      fun i out => ?_⟩
    · cases k with
      | zero =>
        cases is
        exact (rest.others place (.inl (Nat.lt_succ_self _))).trans
          ((first place).trans (if_pos rfl))
      | succ k =>
        rw [← rest.these k b' is, Nat.add_right_comm, Nat.add_assoc]
        rfl
    · rw [List.length_cons] at out
      exact (rest.others i (by omega)).trans ((first i).trans (if_neg (by omega)))

theorem setNumber_eq (m : Memory) (place n value : Nat) :
    m.setNumber place n value = m.setBytes place (Code.le n value) := by
  induction n generalizing m place value with
  | zero => rfl
  | succ n ih => exact ih ..

/-- Where the low bytes of a number were written, fewer of them give the number modulo a smaller
power. -/
theorem Wrote.numberAt {n width value : Nat} (wrote : m.Wrote place (Code.le width value) m')
    (le : n ≤ width) :
    m'.numberAt place n = value % 256 ^ n := by
  have these := wrote.these
  clear wrote
  induction n generalizing place width value with
  | zero => simp [Memory.numberAt, Nat.mod_one]
  | succ n ih =>
    obtain ⟨width, rfl⟩ : ∃ k, width = k + 1 := ⟨width - 1, by omega⟩
    have first : m'.byteAt place = UInt8.ofNat value := these 0 _ rfl
    have rest : m'.numberAt (place + 1) n = value / 256 % 256 ^ n :=
      ih (show n ≤ width by omega) fun k b is => by
      rw [← these (k + 1) b is, Nat.add_right_comm, Nat.add_assoc]
    rw [Memory.numberAt, rest, first, Nat.pow_succ', Nat.mod_mul]
    rfl

/-! ### Attempts to change a memory -/

/-- A request to change a memory, from outside or from running code. -/
inductive Change
  | grow (delta : Nat)
  | write (place : Nat) (bytes : List UInt8)
  | store (kind : Ssa.StoreKind) (place : Nat) (v : Slot)

/-- The memory afterwards; none where the request is refused. -/
def tried (m : Memory) : Change → Option Memory
  | .grow delta => m.grow delta
  | .write place bytes => m.write place bytes
  | .store kind place v =>
    if m.holds place kind.width then some (m.setNumber place kind.width v.toNat) else none

/-- A memory after requests one by one. -/
def run (m : Memory) (changes : List Change) : Memory :=
  changes.foldl (fun m change => (m.tried change).getD m) m

def Change.Fits (m : Memory) : Change → Prop
  | .grow delta => m.size + delta ≤ m.most
  | .write place bytes => place + bytes.length ≤ m.byteSize
  | .store kind place _ => place + kind.width ≤ m.byteSize

instance : DecidablePred (Change.Fits m)
  | .grow _ => Nat.decLe ..
  | .write _ _ => Nat.decLe ..
  | .store _ _ _ => Nat.decLe ..

/-- There are more pages at the end, and they are zero. -/
structure Grew (m : Memory) (delta : Nat) (m' : Memory) : Prop where
  bounds : m'.bounds = m.bounds
  size : m'.size = m.size + delta
  old : ∀ i < m.byteSize, m'.byteAt i = m.byteAt i
  new : ∀ i, m.byteSize ≤ i → m'.byteAt i = 0

/-- What a request does that is not refused. -/
def Change.Did (m m' : Memory) : Change → Prop
  | .grow delta => m.Grew delta m'
  | .write place bytes => m.Wrote place bytes m'
  | .store kind place v => m.Wrote place (Code.le kind.width v.toNat) m'

theorem size_of_grow {delta : Nat} (grown : m.grow delta = some m') : m'.size = m.size + delta := by
  unfold grow at grown
  split at grown
  · cases grown
  · cases grown
    simp [size]

theorem grow_grew (sound : m.Sound) {delta : Nat} (fits : m.size + delta ≤ m.most) :
    ∃ m', m.grow delta = some m' ∧ m'.Sound ∧ m.Grew delta m' := by
  refine ⟨_, if_neg (Nat.not_lt.2 fits), ⟨fun p mem => ?_, ?_⟩, rfl, ?_, fun i lt => ?_,
    fun i le => ?_⟩
  · rcases mem_append.1 mem with mem | mem
    · exact sound.whole p mem
    · rw [eq_of_mem_replicate mem]
      exact size_replicate
  · simpa [size, most] using fits
  · exact size_of_grow (if_neg (Nat.not_lt.2 fits))
  · have page : i / pageSize < m.pages.size := Nat.div_lt_of_lt_mul (by rwa [Nat.mul_comm])
    rw [byteAt_eq, byteAt_eq, getElem?_append_left page]
  · have page : m.pages.size ≤ i / pageSize := (Nat.le_div_iff_mul_le (by decide)).2 le
    rw [byteAt_eq, getElem?_append_right page, getElem?_replicate]
    split
    · simp [zeroPage, Nat.mod_lt i (show 0 < pageSize by decide)]
    · rfl

/-- A request is done if it fits, and refused if not. -/
theorem tried_spec (sound : m.Sound) (change : Change) :
    (change.Fits m ∧ ∃ m', m.tried change = some m' ∧ m'.Sound ∧ change.Did m m') ∨
      (¬ change.Fits m ∧ m.tried change = none) := by
  cases change with
  | grow delta =>
    by_cases fits : m.size + delta ≤ m.most
    · exact .inl ⟨fits, grow_grew sound fits⟩
    · exact .inr ⟨fits, if_pos (Nat.lt_of_not_le fits)⟩
  | write place bytes =>
    by_cases fits : place + bytes.length ≤ m.byteSize
    · exact .inl ⟨fits, _, if_pos (decide_eq_true fits), setBytes_wrote sound fits⟩
    · exact .inr ⟨fits, if_neg fun holds => fits (of_decide_eq_true holds)⟩
  | store kind place v =>
    by_cases fits : place + kind.width ≤ m.byteSize
    · refine .inl ⟨fits, _, if_pos (decide_eq_true fits), ?_⟩
      rw [setNumber_eq]
      exact setBytes_wrote sound (by rwa [Code.le_length])
    · exact .inr ⟨fits, if_neg fun holds => fits (of_decide_eq_true holds)⟩

/-- What was done keeps the bounds and does not make the memory smaller. -/
theorem Change.Did.keeps {change : Change} (did : change.Did m m') :
    m'.bounds = m.bounds ∧ m.byteSize ≤ m'.byteSize := by
  cases change with
  | grow delta => exact ⟨did.bounds, Nat.mul_le_mul_right _ (did.size ▸ Nat.le_add_right ..)⟩
  | write place bytes => exact ⟨did.bounds, Nat.le_of_eq did.size.symm⟩
  | store kind place v => exact ⟨did.bounds, Nat.le_of_eq did.size.symm⟩

theorem run_keeps (sound : m.Sound) (changes : List Change) :
    (m.run changes).Sound ∧ (m.run changes).bounds = m.bounds ∧
      m.byteSize ≤ (m.run changes).byteSize := by
  induction changes generalizing m with
  | nil => exact ⟨sound, rfl, Nat.le_refl _⟩
  | cons change changes ih =>
    rw [run, List.foldl_cons]
    rcases tried_spec sound change with ⟨-, m', is, sound', did⟩ | ⟨-, is⟩
    · obtain ⟨bounds, size⟩ := did.keeps
      obtain ⟨whole, bounds', size'⟩ := ih sound'
      rw [is]
      exact ⟨whole, bounds'.trans bounds, Nat.le_trans size size'⟩
    · rw [is]
      exact ih sound

theorem new_sound {bounds : Bounds}
    (fits : bounds.initial ≤ min (bounds.maximum.getD maxPages) maxPages) :
    (new bounds).Sound := by
  refine ⟨fun p mem => ?_, by simpa [new, size, most] using fits⟩
  rw [eq_of_mem_replicate mem]
  exact size_replicate

end Memory

/-! ### Running code -/

/-- What a load of the kind makes of a value that was stored: its low bits, with their sign if the
kind says so. -/
def Ssa.LoadKind.extend (kind : LoadKind) (v : Slot) : Slot :=
  let low := v.setWidth (8 * kind.width)
  if kind.signed then (low.signExtend (8 * kind.resultTy.byteSize)).setWidth 128
    else low.setWidth 128

theorem Ssa.LoadKind.slot_mod (kind : LoadKind) (v : Slot) :
    kind.slot (v.toNat % 256 ^ kind.width) = kind.extend v := by
  have power : 256 ^ kind.width = 2 ^ (8 * kind.width) := by rw [Nat.pow_mul]
  have low :
      BitVec.ofNat (8 * kind.width) (v.toNat % 2 ^ (8 * kind.width)) = v.setWidth (8 * kind.width) :=
    BitVec.eq_of_toNat_eq (by simp)
  unfold LoadKind.slot LoadKind.extend
  simp only [power, low]
  split
  case isTrue signed => cases kind <;>
    simp only [LoadKind.signed, Bool.false_eq_true] at signed <;> rfl
  case isFalse =>
    exact BitVec.eq_of_toNat_eq (by simp only [BitVec.toNat_ofNat, BitVec.toNat_setWidth])

theorem World.onMemory_const {w : World} {id : Nat} {m : Memory} (is : w.memories[id]? = some m)
    (f : Memory → Memory) :
    w.onMemory id f = w.onMemory id fun _ => f m := by
  unfold World.onMemory
  congr 1
  refine ext_getElem? fun i => ?_
  rw [getElem?_modify, getElem?_modify]
  split
  · subst i
    rw [is]
    rfl
  · rfl

/-- The code that runs has this memory. -/
structure Running.Uses (r : Running) (id : Nat) (m : Memory) : Prop where
  own : r.self.memory = some id
  is : r.world.memories[id]? = some m

/-- How instructions use a memory. Addresses do not wrap: an operand and an offset are added as
numbers. An access that does not fit goes to its stub, and no memory changes. -/
structure Running.Obeys (r : Running) (id : Nat) (m : Memory) : Prop where
  store : ∀ (kind : Ssa.StoreKind) (pc next a b offset stub : Nat) (x y : Slot), r.act.slot? a =
    some x → r.act.slot? b = some y →
    Leads (Exec.instr pc next (.store kind a b offset stub)) r
      (fun flow t => match m.tried (.store kind (x.low32.toNat + offset) y) with
        | some m' => flow = .go next ∧ t = ⟨r.world.onMemory id fun _ => m', r.act⟩
        | none => flow = .go stub ∧ t = r.withAct { r.act with faultPc := pc })
      fun _ _ => False
  load : ∀ (kind : Ssa.LoadKind) (pc next dst a offset stub : Nat) (x : Slot),
    r.act.slot? a = some x →
    dst = Code.noSlot ∨ r.act.base + dst < r.act.slots.size →
    Leads (Exec.instr pc next (.load kind dst a offset stub)) r
      (fun flow t => match m.load (x.low32.toNat + offset) kind.width with
        | some n => flow = .go next ∧ t = r.withAct (r.act.set dst (kind.slot n))
        | none => flow = .go stub ∧ t = r.withAct { r.act with faultPc := pc })
      fun _ _ => False
  grow : ∀ delta : Nat, Leads (Exec.growMemory delta) r
      (fun old t => match m.tried (.grow delta) with
        | some m' => old = .ofNat32 m.size ∧ t = ⟨r.world.onMemory id fun _ => m', r.act⟩
        | none => old = .ofNat32 0xffffffff ∧ t = r)
      fun _ _ => False

theorem Running.Uses.obeys {r : Running} {id : Nat} {m : Memory} (uses : r.Uses id m) :
    r.Obeys id m := by
  have is : r.world.memories.getD id default = m := by
    rw [getD_eq_getD_getElem?, uses.is]
    rfl
  constructor
  case store =>
    intro kind pc next a b offset stub x y first second
    unfold Exec.instr Exec.store Exec.address Exec.memory
    simp only [leads_bind, leads_slot_some first, leads_pure, leads_self, uses.own,
      leads_slot_some second,
      leads_test, leads_ite, leads_onWorld, leads_fault, is, Memory.tried]
    split
    · exact ⟨trivial, by rw [World.onMemory_const uses.is]⟩
    · exact ⟨trivial, trivial⟩
  case load =>
    intro kind pc next dst a offset stub x read fits
    unfold Exec.instr Exec.load Exec.address Exec.memory
    simp only [leads_bind, leads_slot_some read, leads_pure, leads_self, uses.own, leads_ask, is]
    cases m.load (x.low32.toNat + offset) kind.width with
    | some n =>
      rw [leads_bind, leads_setSlot_ok fits, leads_pure]
      exact ⟨rfl, rfl⟩
    | none => exact leads_fault.2 ⟨rfl, rfl⟩
  case grow =>
    intro delta
    unfold Exec.growMemory
    simp only [leads_bind, leads_self, uses.own, leads_ask, is, Memory.tried]
    cases grown : m.grow delta with
    | none => exact leads_pure.2 ⟨rfl, rfl⟩
    | some m' =>
      rw [leads_bind, leads_onWorld, leads_pure, Memory.size_of_grow grown, Nat.add_sub_cancel]
      exact ⟨rfl, rfl⟩

/-- Memories are linear: whatever was asked of a memory before, its pages are whole and never too
many or fewer again; each further request fits and does what it says, or is refused; a load finds
what a store of no smaller width put there; and running code gets this and nothing else from its
memory. -/
theorem memory_linear {bounds : Bounds}
    (fits : bounds.initial ≤ min (bounds.maximum.getD 65536) 65536)
    (before after : List Memory.Change) : let m := (Memory.new bounds).run before
    (m.Sound ∧ m.bounds = bounds ∧ m.byteSize ≤ (m.run after).byteSize) ∧
    (∀ change : Memory.Change, (change.Fits m ∧ ∃ m', m.tried change = some m' ∧ change.Did m m') ∨
      (¬ change.Fits m ∧ m.tried change = none)) ∧
    (∀ (stored : Ssa.StoreKind) (loaded : Ssa.LoadKind) (place : Nat) (v : Slot) (m' : Memory),
      m.tried (.store stored place v) = some m' → loaded.width ≤ stored.width →
      (m'.load place loaded.width).map loaded.slot = some (loaded.extend v)) ∧
    ∀ (r : Running) (id : Nat), r.Uses id m → r.Obeys id m := by
  intro m
  obtain ⟨sound, same, -⟩ := Memory.run_keeps (Memory.new_sound fits) before
  refine ⟨⟨sound, same, (Memory.run_keeps sound after).2.2⟩, fun change => ?_,
    fun stored loaded place v m' is narrow => ?_,
    fun r id uses => uses.obeys⟩
  · rcases Memory.tried_spec sound change with ⟨fits, m', is, -, did⟩ | refused
    · exact .inl ⟨fits, m', is, did⟩
    · exact .inr refused
  · rcases Memory.tried_spec sound
      (.store stored place v) with ⟨fits, m'', is', -, did⟩ | ⟨-, refused⟩
    · cases is.symm.trans is'
      have wrote : m.Wrote place (Code.le stored.width v.toNat) m' := did
      have inside : place + loaded.width ≤ m'.byteSize := by
        rw [wrote.size]
        exact Nat.le_trans (Nat.add_le_add_left narrow _) fits
      have holds : m'.holds place loaded.width = true := decide_eq_true inside
      rw [Memory.load, if_pos holds, wrote.numberAt narrow, Option.map_some, Ssa.LoadKind.slot_mod]
    · rw [refused] at is
      cases is

/-- After a refused growth, the last byte of the only page is stored and loaded with its sign, and
one further there is no place. -/
theorem memory_linear_last_byte : let m := (Memory.new ⟨1, some 1⟩).run [.grow 1]
    (∃ m', m.tried (.store .i32As8 0xffff 0x180) = some m' ∧
      (m'.load 0xffff 1).map Ssa.LoadKind.i64S8.slot =
        some 0xffffffffffffff80) ∧ m.tried (.store .i32As8 0x10000 0x180) = none := by
  obtain ⟨-, each, loads, -⟩ := @memory_linear ⟨1, some 1⟩ (by decide) [.grow 1] []
  refine ⟨?_, ?_⟩
  · obtain ⟨-, m', is, -⟩ := (each (.store .i32As8 0xffff 0x180)).resolve_right fun refused =>
      refused.1 (by decide)
    exact ⟨m', is, loads .i32As8 .i64S8 _ _ m' is (by decide)⟩
  · exact ((each (.store .i32As8 0x10000 0x180)).resolve_left fun fits =>
      absurd fits.1 (by decide)).2

end Wasmill
