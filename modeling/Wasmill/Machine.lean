import Wasmill.Instantiate
import Wasmill.Ssa.Eval

/-! The machine.

Code and host functions run as a stack of tasks. Calls between functions are frames of one task,
over windows of one array of slots; a call of an import puts a host task on top, and a host function
that calls an instance puts another code task on top of that. The machine makes one step at a time.
-/
namespace Wasmill
open Code

/-- A call that is under way. -/
structure Frame where
  /-- Where the frame's slots begin. -/
  base : Nat
  returnPc : Nat
  /-- The slot of the caller that receives the result. -/
  dst : Nat
  /-- The instance of the caller, if the call went to another one. -/
  caller : Option Nat
  deriving Inhabited

/-- Code that is running. -/
structure Activation where
  /-- The instance whose code runs. -/
  inst : Nat
  slots : Array Slot
  frames : Array Frame
  /-- Where the slots of the innermost frame begin. -/
  base : Nat := 0
  pc : Nat
  maxDepth : Nat
  /-- Whether interrupts are noticed at calls and backward branches. -/
  signals : Bool
  /-- The instruction that went to a trap stub. -/
  faultPc : Nat := 0
  /-- A failure on its way out. -/
  pending : Option Error := none
  /-- The type of the result, and the slot it is taken from if the code leaves none. -/
  want : Option ValType
  first : Slot
  deriving Inhabited

/-- Where code goes on after a call of an import, and where it goes on after a failure. -/
structure Return where
  next : Nat
  throw : Nat
  deriving Inhabited

/-- What a host function was called with: values on the generic path, slots by optimized code. -/
inductive HostArgs
  | generic (args : List Val)
  | optimized (args : List Slot) (answer : SlotAnswer)
  deriving Inhabited

/-- A host function that is running for an import of an instance. -/
structure HostTask where
  host : Nat
  inst : Nat
  importIndex : Nat
  sig : Sig
  args : HostArgs
  effects : List Effect
  called : Option Val := none
  back : Return
  deriving Inhabited

inductive Task
  | code (a : Activation)
  | host (h : HostTask)
  deriving Inhabited

/-- What code does next. -/
inductive Next
  | go (pc : Nat)
  | finish (value : Option Slot)
  | exit (optimized : Bool) (importIndex : Nat) (args : List Slot) (back : Return)

/-- Running code and the world it runs in. -/
structure Running where
  world : World
  act : Activation

/-- Steps of code. What was done before a failure stays done. -/
abbrev Exec := ExceptT Error (StateM Running)

namespace Exec

def broken (cause : Broken) : Exec α := throw (.internal cause)

def lift (r : Except Broken α) : Exec α :=
  match r with
  | .ok a => pure a
  | .error cause => broken cause

/-- Something about the running code or its world. -/
def ask (f : Running → α) : Exec α := fun r => (.ok (f r), r)

/-- Whether something holds of the running code or its world. -/
def test (f : Running → Bool) : Exec Bool := ask f

/-- Something about the instance whose code runs. -/
def self (f : Instance → α) : Exec α := ask fun r => f (r.world.instances.getD r.act.inst default)

def onSelf (f : Instance → Instance) : Exec Unit :=
  modify fun r => { r with world := r.world.onInstance r.act.inst f }

def onWorld (f : World → World) : Exec Unit := modify fun r => { r with world := f r.world }

def onAct (f : Activation → Activation) : Exec Unit := modify fun r => { r with act := f r.act }

/-- Changes the activation and answers something about it. -/
def takeFrom (f : Activation → α × Activation) : Exec α := fun ⟨world, act⟩ =>
  let (a, act) := f act
  (.ok a, ⟨world, act⟩)

def slot (i : Nat) : Exec Slot := do
  match ← ask fun r => r.act.slots[r.act.base + i]? with
  | some v => return v
  | none => broken (.slotRead i)

/-- Writes a slot, unless it is none. -/
def setSlot (i : Nat) (v : Slot) : Exec Unit := do
  if i = noSlot then return
  let place ← ask (·.act.base + i)
  if ← test (place < ·.act.slots.size) then
    onAct fun a => { a with slots := a.slots.setIfInBounds place v }
  else broken (.slotWrite i)

def trap (t : Trap) (pc : Nat) : Exec α := do throw (.trap (← self (·.module.trapInfo t pc)))

/-- Uses up a request to stop. -/
def takeInterrupt : Exec Bool := do
  if ← self (·.interrupted) then
    onSelf fun i => { i with interrupted := false }
    return true
  else return false

/-- Goes to a trap stub on behalf of the instruction at `pc`. -/
def fault (pc stub : Nat) : Exec Next := do
  onAct fun a => { a with faultPc := pc }
  return .go stub

/-- Does `next`, unless there is a request to stop that has to be noticed here. -/
def unlessStopped (pc : Nat) (next : Exec Next) : Exec Next := do
  if ← test (·.act.signals) then
    if ← takeInterrupt then fault pc (← self (·.module.stubs.interrupt)) else next
  else next

def relative (pc : Nat) (rel : Int) : Exec Nat :=
  if 0 ≤ (pc : Int) + rel then return ((pc : Int) + rel).toNat else broken (.branchLeavesCode pc)

/-- Assigns slots all at once. -/
def applyMoves (moves : List (Nat × Nat)) : Exec Unit := do
  let values ← moves.mapM fun (_, src) => slot src
  (moves.zip values).forM fun ((dst, _), v) => setSlot dst v

def branch (pc : Nat) (d : Dest) : Exec Next := do
  let target ← relative pc d.rel
  let take : Exec Next := do
    applyMoves d.moves
    return .go target
  if target ≤ pc then unlessStopped pc take else take

/-- Copies arguments to the end of the slots, up to one that is not there. -/
def pushArgs : List Nat → Activation → Option Nat × Activation
  | [], a => (none, a)
  | arg :: rest, a =>
    match a.slots[a.base + arg]? with
    | some v => pushArgs rest { a with slots := a.slots.push v }
    | none => (some arg, a)

/-- Opens a frame with copies of the arguments. -/
def pushFrame (args : List Nat) (dst returnPc : Nat) (callee : Option Nat) : Exec Unit := do
  let base ← ask (·.act.slots.size)
  if let some missing := ← takeFrom (pushArgs args) then broken (.slotRead missing)
  let inst ← ask (·.act.inst)
  let frame := { base, returnPc, dst, caller := callee.map fun _ => inst }
  onAct fun a => { a with frames := a.frames.push frame, base, inst := callee.getD inst }

/-- Goes back to the caller's instance, if the call came from another one. -/
def returnTo (caller : Option Nat) : Exec Unit := do
  if let some caller := caller then
    let left ← ask (·.act.inst)
    onAct fun a => { a with inst := caller }
    onWorld (·.dropInstance left)

/-- Closes the innermost frame; the outermost one ends the activation. -/
def popFrame (value : Option Slot) : Exec Next := do
  match ← takeFrom fun a => (a.frames.back?, { a with frames := a.frames.pop }) with
  | none => broken .returnWithoutFrame
  | some frame =>
    match ← ask (·.act.frames.back?.map (·.base)) with
    | none => return .finish value
    | some callerBase =>
      onAct fun a => { a with slots := a.slots.shrink frame.base, base := callerBase }
      returnTo frame.caller
      if frame.dst ≠ noSlot then
        match value with
        | some v => setSlot frame.dst v
        | none => broken .missingReturnValue
      return .go frame.returnPc

def result (src : Nat) : Exec (Option Slot) :=
  if src = noSlot then return none else return some (← slot src)

/-- The entry that counts, for a direct call to `target` while profiling. -/
def countingEntry (target : Nat) : Exec Nat := do
  let code ← self (·.code)
  let (op, next) ← lift (Fetch.opcode code target)
  let target ←
    if op = .jumpFar then do
      let (far, _) ← lift (Fetch.linked code next)
      pure far
    else pure target
  match ← self (·.module.rangeAt? target) with
  | some { kind := .function _ _ entry, start, .. } =>
    return if entry = target then start else target
  | _ => return target

def call (pc : Nat) (rel : Int) (args : List Nat) (dst next : Nat) : Exec Next :=
  unlessStopped pc do
    let target ← relative pc rel
    let target ← if ← self (·.profiling) then countingEntry target else pure target
    pushFrame args dst next none
    return .go target

def callIndirect (pc table token index : Nat) (args : List Nat) (dst next : Nat) : Exec Next :=
  unlessStopped pc do
    let index := (← slot index).low32.toNat
    let id ← lift (← self (·.tableAt table))
    match ← ask fun r => (r.world.tables.getD id default).target index with
    | .error t => trap t pc
    | .ok elem =>
      if elem.token ≠ (← lift (← self (·.data.read token Env.sigTokenSize))) then
        trap .badSignature pc
      else if ← test (·.act.inst = elem.owner) then
        pushFrame args dst next none
        return .go elem.entry
      else if ← test (·.world.isAlive elem.owner) then
        pushFrame args dst next (some elem.owner)
        onWorld (·.holdInstance elem.owner)
        return .go elem.entry
      else trap .indirectCallToNull pc

/-- The first byte of memory that an access reaches. -/
def address (addr offset : Nat) : Exec Nat := return (← slot addr).low32.toNat + offset

def memory (cause : Broken) : Exec Nat := do
  match ← self (·.memory) with
  | some id => return id
  | none => broken cause

def load (kind : Ssa.LoadKind) (pc dst addr offset stub next : Nat) : Exec Next := do
  let place ← address addr offset
  let id ← memory .loadWithoutMemory
  match ← ask fun r => (r.world.memories.getD id default).load place kind.width with
  | some n =>
    setSlot dst (kind.slot n)
    return .go next
  | none => fault pc stub

def store (kind : Ssa.StoreKind) (pc addr src offset stub next : Nat) : Exec Next := do
  let place ← address addr offset
  let id ← memory .storeWithoutMemory
  let v ← slot src
  if ← test fun r => (r.world.memories.getD id default).holds place kind.width then
    onWorld (·.onMemory id fun m => m.setNumber place kind.width v.toNat)
    return .go next
  else fault pc stub

/-- Grows the memory of the instance; the result is the old size, or all ones. -/
def growMemory (delta : Nat) : Exec Slot := do
  let refused : Slot := .ofNat32 0xffffffff
  match ← self (·.memory) with
  | none => return refused
  | some id =>
    match ← ask fun r => (r.world.memories.getD id default).grow delta with
    | none => return refused
    | some m =>
      onWorld (·.onMemory id fun _ => m)
      return .ofNat32 (m.size - delta)

/-- Adds zero slots up to a size. -/
def zeroSlots (slots : Array Slot) (size : Nat) : Array Slot :=
  slots ++ Array.replicate (size - slots.size) (0 : Slot)

/-- Executes the instruction at `pc`; the next one lies at `next`. -/
def instr (pc next : Nat) : Instr → Exec Next
  | .profilingEnter func => do
    onSelf fun i => { i with profile := Instance.counted func i.profile }
    return .go next
  | .prologue frameSize stub => do
    if ← test fun r => r.act.frames.size > r.act.maxDepth then fault pc stub
    else
      onAct fun a => { a with slots := zeroSlots a.slots (a.base + frameSize) }
      return .go next
  | .checkInterrupt _ stub => do
    if ← takeInterrupt then fault pc stub else return .go next
  | .const dst bits => do
    setSlot dst bits
    return .go next
  | .unary op dst src => do
    setSlot dst (op.eval (← slot src))
    return .go next
  | .binary op dst a b => do
    match op.eval (← slot a) (← slot b) with
    | .ok v =>
      setSlot dst v
      return .go next
    | .error t => trap t pc
  | .convert op dst src => do
    match op.eval (← slot src) with
    | .ok v =>
      setSlot dst v
      return .go next
    | .error t => trap t pc
  | .select dst cond ifTrue ifFalse => do
    let c ← slot cond
    let t ← slot ifTrue
    let f ← slot ifFalse
    setSlot dst (if c.low32 ≠ 0 then t else f)
    return .go next
  | .load kind dst addr offset stub => load kind pc dst addr offset stub next
  | .store kind addr src offset stub => store kind pc addr src offset stub next
  | .globalGet ty dst place => do
    setSlot dst (← lift (← self (·.data.readGlobal place ty)))
    return .go next
  | .globalSet ty place src => do
    let v ← slot src
    let data ← lift (← self (·.data.writeGlobal place ty v))
    onSelf fun i => { i with data }
    return .go next
  | .memorySize _ dst => do
    let id ← self (·.memory)
    let size ← ask fun r => id.elim 0 fun id => (r.world.memories.getD id default).size
    setSlot dst (.ofNat32 size)
    return .go next
  | .memoryGrow _ dst delta => do
    let old ← growMemory (← slot delta).low32.toNat
    setSlot dst old
    return .go next
  | .splat shape dst src => do
    setSlot dst (shape.splat (← slot src))
    return .go next
  | .extractLane shape signed lane dst src => do
    setSlot dst (shape.extract signed lane (← slot src))
    return .go next
  | .replaceLane shape lane dst vector value => do
    setSlot dst (shape.replace lane (← slot vector) (← slot value))
    return .go next
  | .shuffle dst a b lanes => do
    setSlot dst (Ssa.shuffle (← slot a) (← slot b) lanes)
    return .go next
  | .jump dest => branch pc dest
  | .brIf cond ifTrue ifFalse => do
    if (← slot cond).low32 ≠ 0 then branch pc ifTrue else branch pc ifFalse
  | .brTable index targets default => do
    branch pc (targets.getD (← slot index).low32.toNat default)
  | .ret src => do popFrame (← result src)
  | .trap t => trap t pc
  | .call rel args dst => call pc rel args dst next
  | .callImport record args dst =>
    unlessStopped pc do
      let target ← lift (← self (·.data.exitTarget record))
      pushFrame args dst next none
      return .go target
  | .callIndirect table token index args dst => callIndirect pc table token index args dst next
  | .jumpFar target => return .go target
  | .entryPrologue nargs => do
    if ← test (·.act.slots.size < nargs) then broken .tooFewArguments else return .go next
  | .entryReturn src => return .finish (← result src)
  | .exit optimized symbol importIndex nargs throw => do
    if optimized != (symbol == Symbol.callOptimized.number) then broken (.wrongSymbol pc)
    else
      let base ← ask (·.act.base)
      if ← test (·.act.slots.size < base + nargs) then broken .importArguments
      else
        let args ← ask fun r => (r.act.slots.extract base (base + nargs)).toList
        return .exit optimized importIndex args { next, throw }
  | .trapExit t => do trap t (← ask (·.act.faultPc))
  | .unwind => do
    match ← takeFrom fun a => (a.pending, { a with pending := none }) with
    | some e => throw e
    | none => broken .unwindWithoutError

/-- Executes one instruction. -/
def step : Exec Next := do
  let pc ← ask (·.act.pc)
  let code ← self (·.code)
  match ← lift (Fetch.instrAt code pc) with
  | (.instr i, next) => instr pc next i
  | (.table index, place) =>
    let index := (← slot index).low32.toNat
    branch pc (← lift (Fetch.tableDest code place index))

end Exec

/-! ### Tasks -/

/-- Code about to run at a place of an instance's code. -/
def World.activation (w : World) (id entry : Nat) (args : Array Slot) (want : Option ValType) :
    Activation :=
  let config := ((w.instances[id]?.bind fun i => w.engines[i.engine]?).map (·.config)).getD {}
  { inst := id, slots := args, pc := entry, want, first := args.getD 0 0
    frames := #[{ base := 0, returnPc := 0, dst := noSlot, caller := none }]
    maxDepth := config.maxCallDepth
    signals := config.interruptMode = .signal }

/-- Lets go of the instances that an activation holds. -/
def World.dropActivation (w : World) (a : Activation) : World :=
  a.frames.foldl (fun w frame => frame.caller.elim w w.dropInstance) (w.dropInstance a.inst)

/-- The arguments of an exported function as slots, at least one. -/
def argSlots (sig : Sig) (args : List Val) : Except Error (Array Slot) := do
  let slots ← (sig.params.zipIdx).mapM fun (ty, index) =>
    match args[index]? with
    | none => .ok (Slot.absent ty)
    | some v =>
      match v.coerce? ty with
      | some v => .ok v.toSlot
      | none => .error (.typeMismatch (.noConversion v.ty ty))
  return if slots.isEmpty then #[0] else slots.toArray

namespace World

/-- A call of an exported function by its place. It holds the instance. -/
def enterIndex (w : World) (id index : Nat) (args : List Val) : Except Error (World × Task) := do
  let i := w.instances.getD id default
  match i.module.exports.funcs[index]? with
  | none => throw (.unknownExport s!"function export {index}")
  | some e =>
    match i.module.env.sigs[e.sig]? with
    | none => throw (.internal .exportSignature)
    | some sig =>
      let slots ← argSlots sig args
      return (w.holdInstance id, .code (w.activation id e.entry slots sig.result))

/-- A call of an exported function by its name. -/
def enter (w : World) (id : Nat) (name : String) (args : List Val) :
    Except Error (World × Task) :=
  match (w.instances.getD id default).module.exports.find? name with
  | some (.function index) => w.enterIndex id index args
  | _ => .error (.unknownExport name)

end World

/-- What a step leads to. -/
inductive Progress
  | running (world : World) (top : Task) (below : List Task)
  | finished (world : World) (result : Except Error (Option Val))

namespace Machine

/-- Sends the failure of a host function through the code that called it. -/
def throwTo (w : World) (a : Activation) (back : Return) (e : Error) (below : List Task) :
    Progress :=
  .running w (.code { a with pending := some e, pc := back.throw }) below

/-- A host function fails because something that it did failed. -/
def failHost (w : World) (h : HostTask) (e : Error) : List Task → Progress
  | .code a :: below => throwTo w a h.back (.host [e.message]) below
  | _ => .finished w (.error (.host [e.message]))

/-- Hands the result of code to the host function that called it, or to the outside. -/
def deliver (w : World) (result : Except Error (Option Val)) : List Task → Progress
  | .host h :: below =>
    match result with
    | .ok v => .running w (.host { h with called := v }) below
    | .error e => failHost w h e below
  | _ => .finished w result

/-- Ends code. -/
def leave (w : World) (a : Activation) (result : Except Error (Option Val)) (below : List Task) :
    Progress := deliver (w.dropActivation a) result below

/-- Hands what a host function answered to the code that called it. -/
def resume (w : World) (a : Activation) (back : Return) (answer : Except Error Slot)
    (below : List Task) : Progress :=
  match answer with
  | .error e => throwTo w a back e below
  | .ok v =>
    if a.base < a.slots.size then
      .running w (.code { a with slots := a.slots.setIfInBounds a.base v, pc := back.next }) below
    else leave w a (.error (.internal (.slotWrite 0))) below

/-- Starts a host function on the generic path. -/
def startGeneric (w : World) (a : Activation) (host importIndex : Nat) (args : List Slot)
    (back : Return) (below : List Task) : Progress :=
  match (w.instances.getD a.inst default).importSig importIndex with
  | .error cause => throwTo w a back (.internal cause) below
  | .ok sig =>
    let vals := (sig.params.zip args).map fun (ty, s) => s.toVal ty
    let h := w.hosts.getD host default
    let w := (w.log (.generic h.name vals)).onHost host fun h => { h with runs := h.runs + 1 }
    .running w
      (.host
        { host, inst := a.inst, importIndex, sig, args := .generic vals, effects := h.effects, back })
      (.code a :: below)

/-- Starts the host function of an import. -/
def startHost (w : World) (a : Activation) (optimized : Bool) (importIndex : Nat)
    (args : List Slot) (back : Return) (below : List Task) : Progress :=
  let i := w.instances.getD a.inst default
  match i.host importIndex with
  | .error cause => throwTo w a back (.internal cause) below
  | .ok host =>
    let h := w.hosts.getD host default
    match optimized, h.optimized with
    | false, _ => startGeneric w a host importIndex args back below
    | true, none =>
      let w := w.onInstance a.inst (·.deoptimize importIndex)
      startGeneric w a host importIndex args back below
    | true, some code =>
      match i.importSig importIndex with
      | .error cause => throwTo w a back (.internal cause) below
      | .ok sig =>
        let args := args.take sig.params.length
        .running (w.log (.optimized h.name args))
          (.host
            { host, inst := a.inst, importIndex, sig, args := .optimized args code.answer
              effects := code.effects, back })
          (.code a :: below)

/-- The slot that an import's signature makes of a host function's answer. -/
def resultSlot (sig : Sig) (answer : Option Val) : Except Error Slot :=
  match sig.result, answer with
  | none, _ => .ok 0
  | some ty, none => .error (.typeMismatch (.noResult ty))
  | some ty, some v =>
    match v.coerce? ty with
    | some v => .ok v.toSlot
    | none => .error (.typeMismatch (.noConversion v.ty ty))

/-- The answer of a host function whose effects are done. Afterwards an import may change to the
optimized path. -/
def hostAnswer (w : World) (h : HostTask) : World × Except Error Slot :=
  match h.args with
  | .optimized args answer =>
    match answer.answerTo args with
    | .error chain => (w, .error (.host chain))
    | .ok s => (w, .ok (h.sig.result.elim 0 fun ty => (s.toVal ty).toSlot))
  | .generic args =>
    match (w.hosts.getD h.host default).answerTo args h.called with
    | .error chain => (w, .error (.host chain))
    | .ok v =>
      match resultSlot h.sig v with
      | .error e => (w, .error e)
      | .ok s =>
        match w.optimizeImport h.inst h.importIndex h.host h.sig with
        | .ok w => (w, .ok s)
        | .error cause => (w, .error (.internal cause))

/-- An effect that does not call anything. What it names may be missing; then nothing happens. -/
def effect (w : World) : Effect → World
  | .interrupt target => (w.instance? target).elim w w.interrupt
  | .invalidate host => (w.host? host).elim w w.invalidate
  | .setOptimized host code => (w.host? host).elim w (w.setOptimized · code)
  | .write memory offset bytes =>
    (w.memory? memory).elim w fun id =>
      match (w.memories.getD id default).write offset bytes.toList with
      | some m => (w.onMemory id fun _ => m).log (.write true)
      | none => w.log (.write false)
  | .grow memory delta =>
    (w.memory? memory).elim w fun id =>
      match (w.memories.getD id default).grow delta with
      | some m => (w.onMemory id fun _ => m).log (.grow (some (m.size - delta)))
      | none => w.log (.grow none)
  | .profiling target on => (w.instance? target).elim w (w.setProfiling · on)
  | .drop target => w.unnameInstance target
  | .call _ _ _ => w

def hostStep (w : World) (h : HostTask) (below : List Task) : Progress :=
  match h.effects with
  | .call target name args :: rest =>
    let h := { h with effects := rest }
    match w.instance? target with
    | none => .running w (.host h) below
    | some id =>
      match w.enter id name args with
      | .error e => failHost w h e below
      | .ok (w, task) => .running w task (.host h :: below)
  | e :: rest => .running (effect w e) (.host { h with effects := rest }) below
  | [] =>
    let (w, answer) := hostAnswer w h
    match below with
    | .code a :: below => resume w a h.back answer below
    | _ => .finished w (answer.map fun _ => none)

def codeStep (w : World) (a : Activation) (below : List Task) : Progress :=
  match Exec.step { world := w, act := a } with
  | (.ok (.go pc), r) => .running r.world (.code { r.act with pc }) below
  | (.ok (.finish value), r) =>
    let answer := r.act.want.map fun ty => (value.getD r.act.first).toVal ty
    leave r.world r.act (.ok answer) below
  | (.ok (.exit optimized importIndex args back), r) =>
    startHost r.world r.act optimized importIndex args back below
  | (.error e, r) => leave r.world r.act (.error e) below

def step (w : World) (top : Task) (below : List Task) : Progress :=
  match top with
  | .code a => codeStep w a below
  | .host h => hostStep w h below

/-- Runs to the end, if that takes no more steps than asked for. -/
def run : Nat → World → Task → List Task → Option (World × Except Error (Option Val))
  | 0, _, _, _ => none
  | fuel + 1, w, top, below =>
    match step w top below with
    | .running w top below => run fuel w top below
    | .finished w result => some (w, result)

end Machine
end Wasmill
