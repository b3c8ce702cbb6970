import Wasmill.Code.Fetch

/-! Reading back what was encoded.

`Holds code pos bytes`: the bytes stand in the code from that place on. Numbers are kept in 32 bits,
so reading an instruction back gives its `narrowed` form; what was never linked does not read at
all. -/
namespace Wasmill.Code
open Ssa List
variable {n byte value : Nat} {a : α}

/-! ### Bytes in code -/

/-- The bytes stand in the code from `pos` on. -/
def Holds (code : ByteArray) (pos : Nat) (bytes : List UInt8) : Prop :=
  bytes <+: code.data.toList.drop pos

section
variable {code : ByteArray} {pos : Nat} {a b : List UInt8}

theorem holds_append : Holds code pos (a ++ b) ↔ Holds code pos a ∧
    Holds code (pos + a.length) b := by
  unfold Holds
  constructor
  · rintro ⟨rest, is⟩
    rw [append_assoc] at is
    refine ⟨⟨_, is⟩, rest, ?_⟩
    rw [← drop_drop, ← is, drop_left]
  · rintro ⟨⟨rest, is⟩, more, is'⟩
    rw [← drop_drop, ← is, drop_left] at is'
    exact ⟨more, by rw [append_assoc, is', is]⟩

theorem Holds.left (h : Holds code pos (a ++ b)) : Holds code pos a := (holds_append.1 h).1

theorem Holds.right (h : Holds code pos (a ++ b)) : Holds code (pos + a.length) b :=
  (holds_append.1 h).2

theorem Holds.inside (h : Holds code pos a) : a = [] ∨ pos + a.length ≤ code.size := by
  have le := List.IsPrefix.length_le h
  rw [length_drop] at le
  have size : code.data.toList.length = code.size := rfl
  cases a with
  | nil => exact .inl rfl
  | cons x a => simp only [length_cons] at le ⊢; omega

theorem Holds.get (h : Holds code pos (x :: a)) : pos < code.size ∧ code.get! pos = x := by
  have inside : pos < code.size := by
    rcases h.inside with no | le
    · cases no
    · simp only [length_cons] at le; omega
  refine ⟨inside, ?_⟩
  obtain ⟨rest, is⟩ := h
  have at' : code.data.toList[pos]? = some x := by
    rw [← Nat.add_zero pos, ← getElem?_drop, ← is]
    rfl
  have : code.data[pos]? = some x := by rw [← at', Array.getElem?_toList]
  show code.data[pos]! = x
  rw [getElem!_def, this]

theorem Holds.tail (h : Holds code pos (x :: a)) : Holds code (pos + 1) a :=
  Holds.right (a := [x]) h

end

/-! ### Numbers -/

@[simp] theorem le_length (n value : Nat) : (le n value).length = n := by
  induction n generalizing value with
  | zero => rfl
  | succ n ih => simp [le, ih]

@[simp] theorem u8_length (value : Nat) : (u8 value).length = 1 := le_length 1 value

@[simp] theorem u32_length (value : Nat) : (u32 value).length = 4 := le_length 4 value

@[simp] theorem i32_length (value : Int) : (i32 value).length = 4 := u32_length _

/-- A number as 32 bits keep it. -/
def word (n : Nat) : Nat := n % UInt32.size

/-- A signed number as 32 bits keep it. -/
def signedWord (n : Int) : Int := n.bmod UInt32.size

theorem word_of_lt (h : n < UInt32.size) : word n = n := Nat.mod_eq_of_lt h

theorem signedWord_of_fits {n : Int} (low : -0x80000000 ≤ n) (high : n < 0x80000000) :
    signedWord n = n := by
  have size : (UInt32.size : Int) = 4294967296 := rfl
  unfold signedWord
  rw [Int.bmod_eq_of_le (by omega) (by omega)]

/-! ### Reading -/

/-- Wherever the bytes stand, the reader takes them and answers `a`. -/
class Fetches (m : Fetch α) (bytes : List UInt8) (a : outParam α) : Prop where
  read (code : ByteArray) (pos : Nat) : Holds code pos bytes →
    m code pos = .ok (a, pos + bytes.length)

section
variable {α β : Type} {m : Fetch α} {a : α} {b : β} {x y : List UInt8}

instance (a : α) : Fetches (pure a) [] a := ⟨fun _ _ _ => rfl⟩

theorem Fetches.bind {f : α → Fetch β} (first : Fetches m x a) (next : Fetches (f a) y b) :
    Fetches (m >>= f) (x ++ y) b := by
  refine ⟨fun code pos holds => ?_⟩
  show (m code pos).bind (fun p => f p.1 code p.2) = _
  rw [first.read code pos holds.left]
  show f a code (pos + x.length) = _
  rw [next.read code (pos + x.length) holds.right, length_append, Nat.add_assoc]

instance {f : α → Fetch β} [first : Fetches m x a] [next : Fetches (f a) y b] :
    Fetches (m >>= f) (x ++ y) b := first.bind next

instance {f : α → β} [Fetches m x a] : Fetches (m >>= fun a => pure (f a)) x (f a) := by
  have both : Fetches (m >>= fun a => pure (f a)) (x ++ []) (f a) := inferInstance
  rwa [append_nil] at both

end

theorem leAt_holds {code : ByteArray} {pos : Nat} (h : Holds code pos (le n value)) :
    Fetch.leAt code pos n = value % Nat.pow 256 n := by
  induction n generalizing pos value with
  | zero => simp [Fetch.leAt, Nat.mod_one]
  | succ n ih =>
    obtain ⟨-, is⟩ := h.get
    rw [Fetch.leAt, is, ih h.tail]
    have byte : (UInt8.ofNat value).toNat = value % 256 := by simp
    rw [byte]
    show _ = value % (Nat.pow 256 n * 256)
    rw [Nat.mul_comm (Nat.pow 256 n) 256, Nat.mod_mul]

theorem fetches_le (some' : 0 < n) (value : Nat) :
    Fetches (Fetch.le n) (le n value) (value % Nat.pow 256 n) := by
  refine ⟨fun code pos holds => ?_⟩
  have fits : pos + n ≤ code.size := by
    rcases holds.inside with none | le
    · have := congrArg List.length none
      simp only [le_length, length_nil] at this
      omega
    · simpa using le
  simp [Fetch.le, fits, leAt_holds holds]

instance fetches_u8 (value : Nat) : Fetches Fetch.u8 (u8 value) (value % 256) :=
  fetches_le (by decide) value

instance fetches_u32 (value : Nat) : Fetches Fetch.u32 (u32 value) (word value) :=
  fetches_le (by decide) value

instance (value : Int) : Fetches Fetch.i32 (i32 value) (signedWord value) := by
  have size : (UInt32.size : Int) = 4294967296 := rfl
  have is :
      signedWord value = (fun n : Nat => if n < 0x80000000 then (n : Int) else (n : Int) - UInt32.size)
      (word (value % UInt32.size).toNat) := by
    have small : (value % UInt32.size).toNat < UInt32.size := by
      have := Int.emod_lt_of_pos value (b := UInt32.size) (by decide)
      have := Int.emod_nonneg value (b := UInt32.size) (by decide)
      omega
    have back : ((value % UInt32.size).toNat : Int) = value % UInt32.size :=
      Int.toNat_of_nonneg (Int.emod_nonneg value (by decide))
    simp only [word_of_lt small, signedWord, Int.bmod]
    split <;> split <;> omega
  rw [is]
  exact inferInstanceAs (Fetches (Fetch.u32 >>= fun n => pure _) (u32 _) _)

/-- A number that linking may write. -/
def Linkable (n : Nat) : Prop := word n ≠ unlinked

theorem fetches_linked (filled : Linkable value) :
    Fetches Fetch.linked (u32 value) (word value) := by
  refine ⟨fun code pos holds => ?_⟩
  show (Fetch.u32 code pos).bind _ = _
  rw [(fetches_u32 value).read code pos holds]
  exact if_neg filled

/-- Every byte that stands for something is below 256. -/
theorem lt_of_getElem? {all : Array α} (few : all.size ≤ 256) (is : all[byte]? = some a) :
    byte < 256 := Nat.lt_of_lt_of_le (Array.getElem?_eq_some_iff.1 is).1 few

theorem fetches_opcode (op : Opcode) : Fetches Fetch.opcode (u8 op.toByte) op := by
  refine ⟨fun code pos holds => ?_⟩
  show (Fetch.u8 code pos).bind _ = _
  rw [(fetches_u8 op.toByte).read code pos holds,
    Nat.mod_eq_of_lt (lt_of_getElem? (by decide) op.ofByte?_toByte)]
  simp only [Except.bind, op.ofByte?_toByte]

section
variable {pc : Nat} {what : String}

theorem fetches_coded {ofByte? : Nat → Option α} (small : byte < 256) (is : ofByte? byte = some a) :
    Fetches (Fetch.coded what pc ofByte?) (u8 byte) a := by
  refine ⟨fun code pos holds => ?_⟩
  show (Fetch.u8 code pos).bind _ = _
  rw [(fetches_u8 byte).read code pos holds, Nat.mod_eq_of_lt small]
  simp only [Except.bind, is]
  rfl

instance (op : UnaryOp) : Fetches (Fetch.coded what pc UnaryOp.ofByte?) (u8 op.toByte) op :=
  fetches_coded (lt_of_getElem? (by decide) op.ofByte?_toByte) op.ofByte?_toByte

instance (op : BinaryOp) : Fetches (Fetch.coded what pc BinaryOp.ofByte?) (u8 op.toByte) op :=
  fetches_coded (lt_of_getElem? (by decide) op.ofByte?_toByte) op.ofByte?_toByte

instance (op : ConvertOp) : Fetches (Fetch.coded what pc ConvertOp.ofByte?) (u8 op.toByte) op :=
  fetches_coded (lt_of_getElem? (by decide) op.ofByte?_toByte) op.ofByte?_toByte

instance (kind : LoadKind) : Fetches (Fetch.coded what pc LoadKind.ofByte?) (u8 kind.toByte) kind :=
  fetches_coded (lt_of_getElem? (by decide) kind.ofByte?_toByte) kind.ofByte?_toByte

instance (kind : StoreKind) :
    Fetches (Fetch.coded what pc StoreKind.ofByte?) (u8 kind.toByte) kind :=
  fetches_coded (lt_of_getElem? (by decide) kind.ofByte?_toByte) kind.ofByte?_toByte

instance (shape : LaneShape) :
    Fetches (Fetch.coded what pc LaneShape.ofByte?) (u8 shape.toByte) shape :=
  fetches_coded (lt_of_getElem? (by decide) shape.ofByte?_toByte) shape.ofByte?_toByte

instance (ty : ValType) : Fetches (Fetch.coded what pc ValType.ofByte?) (u8 ty.toByte) ty :=
  fetches_coded (by cases ty <;> decide) ty.ofByte?_toByte

instance (t : Trap) : Fetches (Fetch.coded what pc Trap.ofByte?) (u8 t.toByte) t :=
  fetches_coded (by cases t <;> decide) t.ofByte?_toByte

end

section
variable {α β : Type} {item : Fetch β} {bytes : α → List UInt8} {seen : α → β}

theorem fetches_many (as : List α) (each : ∀ a ∈ as, Fetches item (bytes a) (seen a)) :
    Fetches (Fetch.many item as.length) (as.flatMap bytes) (as.map seen) := by
  induction as with
  | nil => exact inferInstanceAs (Fetches (pure []) [] [])
  | cons a as ih =>
    have first := each a mem_cons_self
    have rest := ih fun b mem => each b (mem_cons_of_mem a mem)
    rw [flatMap_cons]
    exact inferInstanceAs (Fetches (item >>= fun _ => _ >>= fun _ => pure _) _ _)

end

/-! ### Destinations and arguments -/

/-- The destination as 32 bits keep it. -/
def Dest.narrowed (d : Dest) : Dest :=
  { rel := signedWord d.rel, moves := d.moves.map fun (dst, src) => (word dst, word src) }

theorem flatMap_length_of {β : Type} {f : α → List β} (as : List α)
    (each : ∀ a ∈ as, (f a).length = n) : (as.flatMap f).length = n * as.length := by
  rw [length_flatMap, map_congr_left each, map_const', sum_replicate_nat, Nat.mul_comm]

theorem Dest.encode_length (d : Dest) : d.encode.length = 8 + 8 * d.moves.length := by
  rw [Dest.encode, length_append, length_append,
    flatMap_length_of (n := 8) d.moves (fun move _ => by simp)]
  simp

theorem encodeArgs_length (args : List Nat) : (encodeArgs args).length = 4 + 4 * args.length := by
  rw [encodeArgs, length_append, flatMap_length_of (n := 4) args (fun arg _ => by simp)]
  simp

theorem fetches_args {args : List Nat} (small : args.length < UInt32.size) :
    Fetches Fetch.args (encodeArgs args) (args.map word) := by
  have count := fetches_u32 args.length
  rw [word_of_lt small] at count
  have all : Fetches (Fetch.many Fetch.u32 args.length) (args.flatMap u32) (args.map word) :=
    fetches_many args fun _ _ => inferInstance
  exact inferInstanceAs (Fetches (Fetch.u32 >>= _) (u32 _ ++ _) _)

theorem fetches_dest {d : Dest} (small : d.moves.length < UInt32.size) :
    Fetches Fetch.dest d.encode d.narrowed := by
  have count := fetches_u32 d.moves.length
  rw [word_of_lt small] at count
  have move (m : Nat × Nat) : Fetches Fetch.move (u32 m.1 ++ u32 m.2) (word m.1, word m.2) := by
    unfold Fetch.move
    infer_instance
  have moves : Fetches (Fetch.many Fetch.move d.moves.length)
      (d.moves.flatMap fun (dst, src) => u32 dst ++ u32 src)
      (d.moves.map fun (dst, src) => (word dst, word src)) :=
        fetches_many d.moves fun _ _ => inferInstance
  rw [Dest.encode, append_assoc]
  exact inferInstanceAs (Fetches (Fetch.i32 >>= _) _ _)

/-- Passing over a destination ends where reading it ends. -/
theorem fetches_skipDest {d : Dest} (small : d.moves.length < UInt32.size) :
    Fetches Fetch.skipDest d.encode () := by
  have count := fetches_u32 d.moves.length
  rw [word_of_lt small] at count
  have skip : Fetches (modify (· + 8 * d.moves.length) : Fetch Unit)
      (d.moves.flatMap fun (dst, src) => u32 dst ++ u32 src) () :=
    ⟨fun _ _ _ => by rw [flatMap_length_of (n := 8) d.moves (fun _ _ => by simp)]; rfl⟩
  rw [Dest.encode, append_assoc]
  exact inferInstanceAs (Fetches (Fetch.i32 >>= _) _ _)

/-! ### Instructions -/

namespace Instr

/-- The instruction as 32 bits keep its numbers. -/
def narrowed : Instr → Instr
  | profilingEnter func => profilingEnter (word func)
  | prologue frameSize stub => prologue (word frameSize) (word stub)
  | checkInterrupt symbol stub => checkInterrupt (word symbol) (word stub)
  | const dst bits => const (word dst) bits
  | unary op dst src => unary op (word dst) (word src)
  | binary op dst a b => binary op (word dst) (word a) (word b)
  | convert op dst src => convert op (word dst) (word src)
  | select dst cond ifTrue ifFalse => select (word dst) (word cond) (word ifTrue) (word ifFalse)
  | load kind dst addr offset stub => load kind (word dst) (word addr) (word offset) (word stub)
  | store kind addr src offset stub => store kind (word addr) (word src) (word offset) (word stub)
  | globalGet ty dst place => globalGet ty (word dst) (word place)
  | globalSet ty place src => globalSet ty (word place) (word src)
  | memorySize symbol dst => memorySize (word symbol) (word dst)
  | memoryGrow symbol dst delta => memoryGrow (word symbol) (word dst) (word delta)
  | splat shape dst src => splat shape (word dst) (word src)
  | extractLane shape signed lane dst src =>
    extractLane shape signed (lane % 256) (word dst) (word src)
  | replaceLane shape lane dst vector value =>
    replaceLane shape (lane % 256) (word dst) (word vector) (word value)
  | shuffle dst a b lanes => shuffle (word dst) (word a) (word b) (lanes.map (· % 256))
  | jump dest => jump dest.narrowed
  | brIf cond ifTrue ifFalse => brIf (word cond) ifTrue.narrowed ifFalse.narrowed
  | brTable index targets default =>
    brTable (word index) (targets.map Dest.narrowed) default.narrowed
  | ret src => ret (word src)
  | trap t => trap t
  | call rel args dst => call (signedWord rel) (args.map word) (word dst)
  | callImport record args dst => callImport (word record) (args.map word) (word dst)
  | callIndirect table token index args dst =>
    callIndirect (word table) (word token) (word index) (args.map word) (word dst)
  | jumpFar target => jumpFar (word target)
  | entryPrologue nargs => entryPrologue (word nargs)
  | entryReturn src => entryReturn (word src)
  | exit optimized symbol importIndex nargs stub =>
    exit optimized (word symbol) (word importIndex) (word nargs) (word stub)
  | trapExit t => trapExit t
  | unwind => unwind

/-- What linking fills in is as it should be; a shuffle has as many lanes as a vector has bytes. -/
def Ready (linked : Nat → Prop) : Instr → Prop
  | prologue _ stub | load _ _ _ _ stub | store _ _ _ _ stub => linked stub
  | checkInterrupt symbol stub | exit _ symbol _ _ stub => linked symbol ∧ linked stub
  | memorySize symbol _ | memoryGrow symbol _ _ => linked symbol
  | jumpFar target => linked target
  | shuffle _ _ _ lanes => lanes.length = 16
  | _ => True

/-- An instruction as the machine meets it, and how much of it the machine takes. -/
def fetched : Instr → Fetched × Nat
  | brTable index _ _ => (.table (word index), 5)
  | i => (.instr i.narrowed, i.size)

end Instr


/-- Instructions that fit into 32-bit code have no list too long to count. -/
def Instr.Short (i : Instr) : Prop := i.size < UInt32.size

section
variable {i : Instr} {targets : List Dest} {d default : Dest} {index : Nat}
  {code : ByteArray} {pc : Nat}

theorem Dest.encode_length_le (mem : d ∈ targets) :
    d.encode.length ≤ (targets.flatMap Dest.encode).length := by
  induction targets with
  | nil => cases mem
  | cons e targets ih =>
    rw [flatMap_cons, length_append]
    rcases mem_cons.1 mem with rfl | mem
    · exact Nat.le_add_right _ _
    · exact Nat.le_trans (ih mem) (Nat.le_add_left _ _)

theorem length_le_flatMap_encode (targets : List Dest) :
    targets.length ≤ (targets.flatMap Dest.encode).length := by
  induction targets with
  | nil => exact Nat.le_refl 0
  | cons e targets ih =>
    rw [flatMap_cons, length_append, length_cons, e.encode_length]
    omega

theorem Instr.eq_brTable (table : i.opcode = .brTable) :
    ∃ index targets default, i = .brTable index targets default := by
  cases i with
  | brTable index targets default => exact ⟨index, targets, default, rfl⟩
  | exit optimized symbol importIndex nargs stub => cases optimized <;> cases table
  | _ => cases table

/-- A branch table that fits into 32-bit code has no list too long to count. -/
theorem Instr.Short.table (short : (Instr.brTable index targets default).Short) :
    targets.length < UInt32.size ∧
    (∀ d ∈ targets, d.moves.length < UInt32.size) ∧ default.moves.length < UInt32.size := by
  simp only [Instr.Short, Instr.size, Instr.encode, Instr.operands, length_append,
    u8_length, u32_length,
    default.encode_length] at short
  refine ⟨?_, fun d mem => ?_, by omega⟩
  · have := length_le_flatMap_encode targets
    omega
  · have := Dest.encode_length_le mem
    rw [d.encode_length] at this
    omega

/-- The operands of an instruction other than a branch table read back. -/
theorem fetches_operands {absolute : Fetch Nat} {linked : Nat → Prop}
    (read : ∀ n, linked n → Fetches absolute (u32 n) (word n))
    (pc : Nat) (ready : i.Ready linked) (short : i.Short) (whole : i.opcode ≠ .brTable) :
    Fetches (Fetch.operands absolute pc i.opcode) i.operands (.instr i.narrowed) := by
  have short : 1 + i.operands.length < UInt32.size := by
    simpa [Instr.Short, Instr.size, Instr.encode, Nat.add_comm] using short
  cases i with
  | brTable index targets default => exact absurd rfl whole
  | const dst bits =>
    have bits' := fetches_le (n := 16) (by decide) bits.toNat
    rw [show bits.toNat % Nat.pow 256 16 = bits.toNat from Nat.mod_eq_of_lt bits.isLt] at bits'
    have read : Fetches (Fetch.operands absolute pc .const) (u32 dst ++ le 16 bits.toNat)
        (.instr (.const (word dst) (BitVec.ofNat 128 bits.toNat))) :=
          inferInstanceAs (Fetches (Fetch.u32 >>= _) _ _)
    rwa [BitVec.ofNat_toNat, BitVec.setWidth_eq] at read
  | extractLane shape signed lane dst src =>
    simp only [Instr.operands, append_assoc]
    have read : Fetches (Fetch.operands absolute pc .extractLane)
        (u8 shape.toByte ++ (u8 signed.toNat ++ (u8 lane ++ (u32 dst ++ u32 src))))
        (.instr (.extractLane shape (signed.toNat % 256 != 0) (lane % 256) (word dst)
          (word src))) :=
      inferInstanceAs (Fetches (Fetch.coded _ _ _ >>= _) _ _)
    rwa [show (signed.toNat % 256 != 0) = signed by cases signed <;> rfl] at read
  | shuffle dst a b lanes =>
    have lanes' : Fetches (Fetch.many Fetch.u8 lanes.length) (lanes.flatMap u8)
        (lanes.map (· % 256)) := fetches_many lanes fun _ _ => inferInstance
    rw [show lanes.length = 16 from ready] at lanes'
    simp only [Instr.operands, append_assoc]
    exact inferInstanceAs (Fetches (Fetch.u32 >>= _) _ _)
  | jump dest =>
    simp only [Instr.operands, dest.encode_length] at short
    have := fetches_dest (d := dest) (by omega)
    exact inferInstanceAs (Fetches (Fetch.dest >>= _) dest.encode _)
  | brIf cond ifTrue ifFalse =>
    simp only [Instr.operands, length_append, ifTrue.encode_length, ifFalse.encode_length] at short
    have one := fetches_dest (d := ifTrue) (by omega)
    have other := fetches_dest (d := ifFalse) (by omega)
    rw [Instr.operands, append_assoc]
    exact inferInstanceAs (Fetches (Fetch.u32 >>= _) _ _)
  | call first args dst | callImport first args dst | callIndirect first token index args dst =>
    simp only [Instr.operands, length_append, encodeArgs_length] at short
    have := fetches_args (show args.length < UInt32.size by omega)
    simp only [Instr.operands, append_assoc, Instr.opcode, Fetch.operands]
    infer_instance
  | checkInterrupt symbol stub =>
    have := read _ ready.1
    have := read _ ready.2
    exact inferInstanceAs (Fetches (absolute >>= _) (u32 symbol ++ u32 stub) _)
  | exit optimized symbol importIndex nargs stub =>
    have := read _ ready.1
    have := read _ ready.2
    simp only [Instr.operands, append_assoc]
    cases optimized <;> exact inferInstanceAs (Fetches (absolute >>= _) _ _)
  | prologue | load | store | memorySize | memoryGrow | jumpFar =>
    have := read _ ready
    simp only [Instr.operands, append_assoc, Instr.opcode, Fetch.operands]
    infer_instance
  | _ =>
    simp only [Instr.operands, append_assoc, Instr.opcode, Fetch.operands]
    infer_instance

/-- **An instruction that stands in code reads back**, up to the index of a branch table. -/
theorem instrAt_encode (ready : i.Ready Linkable) (short : i.Short)
    (holds : Holds code pc i.encode) :
    Fetch.instrAt code pc = .ok (i.fetched.1, pc + i.fetched.2) := by
  have op := (fetches_opcode i.opcode).read code pc holds.left
  unfold Fetch.instrAt
  show (Fetch.opcode code pc).bind _ = _
  rw [op]
  show Fetch.operands Fetch.linked pc i.opcode code (pc + 1) = _
  by_cases table : i.opcode = .brTable
  · obtain ⟨index, targets, default, rfl⟩ := Instr.eq_brTable table
    have stands : Holds code (pc + 1) (u32 index) := by
      have := holds.right
      rw [Instr.operands, append_assoc, append_assoc] at this
      exact this.left
    exact Fetches.read (m := Fetch.u32 >>= fun n => pure (Fetched.table n)) code (pc + 1) stands
  · have read :=
      (fetches_operands (fun _ => fetches_linked) pc ready short table).read code (pc + 1) holds.right
    rw [read]
    have is : i.fetched = (.instr i.narrowed, i.size) := by
      cases i with
      | brTable index targets default => exact absurd rfl table
      | _ => rfl
    rw [is]
    simp only [Instr.size, Instr.encode, length_append, u8_length, Nat.add_assoc]

/-- The destination for an index comes after those before it. -/
theorem flatMap_encode_split (targets : List Dest) (default : Dest) (k : Nat) :
    ∃ rest, targets.flatMap Dest.encode ++ default.encode =
      ((targets.take k).flatMap Dest.encode ++ (targets.getD k default).encode) ++ rest := by
  have parts := congrArg (List.flatMap Dest.encode) (take_append_drop k targets).symm
  rw [flatMap_append] at parts
  cases rest : targets.drop k with
  | nil =>
    have all : targets.length ≤ k := drop_eq_nil_iff.1 rest
    rw [rest, flatMap_nil, append_nil] at parts
    refine ⟨[], ?_⟩
    rw [parts, append_nil, getD_eq_getElem?_getD, getElem?_eq_none all, Option.getD_none]
  | cons d more =>
    have at' : targets[k]? = some d := by
      have := @getElem?_drop _ targets k 0
      rw [rest] at this
      simpa using this.symm
    rw [rest, flatMap_cons] at parts
    refine ⟨more.flatMap Dest.encode ++ default.encode, ?_⟩
    rw [parts, getD_eq_getElem?_getD, at', Option.getD_some]
    simp only [append_assoc]

/-- Of a branch table, the destination for an index reads back, the last for one past the end. -/
theorem tableDest_encode (short : (Instr.brTable index targets default).Short)
    (holds : Holds code pc (Instr.brTable index targets default).encode) (k : Nat) :
    Fetch.tableDest code (pc + 5) k = .ok (targets.getD k default).narrowed := by
  obtain ⟨few, small, last⟩ := short.table
  have taken : (targets.getD k default).moves.length < UInt32.size := by
    rw [getD_eq_getElem?_getD]
    cases at' : targets[k]? with
    | none => exact last
    | some d => exact small d (mem_of_getElem? at')
  have count := fetches_u32 targets.length
  rw [word_of_lt few] at count
  have passed := fetches_many (targets.take k) fun d mem =>
    fetches_skipDest (small d (mem_of_mem_take mem))
  rw [length_take] at passed
  have read :
      Fetches (do let count ← Fetch.u32; let _ ← Fetch.many Fetch.skipDest (min k count); Fetch.dest)
      (u32 targets.length ++
        ((targets.take k).flatMap Dest.encode ++ (targets.getD k default).encode))
      (targets.getD k default).narrowed := by
    have := fetches_dest taken
    infer_instance
  have stands := holds.right
  rw [Instr.operands, append_assoc, append_assoc] at stands
  obtain ⟨rest, is⟩ := flatMap_encode_split targets default k
  have there := stands.right
  rw [is, ← append_assoc] at there
  have done := read.read code (pc + 5) there.left
  unfold Fetch.tableDest
  show Except.bind _ _ = _
  rw [done]
  rfl

end

end Wasmill.Code
