import Wasmill.Ssa.Function

/-! The printed form of functions. Values are shown resolved. -/
namespace Wasmill.Ssa
namespace Function

def valueText (f : Function) (v : Value) : String := s!"v{f.resolve v}"

def valuesText (f : Function) (vs : List Value) : String := ", ".intercalate (vs.map f.valueText)

def edgeText (f : Function) : Option Edge → String
  | some e => s!"block{e.block}(" ++ f.valuesText e.args.toList ++ ")"
  | none => "unbound()"

def instText (f : Function) (inst : Inst) : String :=
  let v := f.valueText
  match inst with
  | .const bits => "const " ++ hex bits.toNat
  | .unary op a => s!"{op.name} {v a}"
  | .binary op a b => s!"{op.name} {v a}, {v b}"
  | .convert op a => s!"{op.name} {v a}"
  | .select c t e => s!"select {v c}, {v t}, {v e}"
  | .load kind addr offset => s!"load.{kind.name} {v addr}+{offset}"
  | .store kind addr value offset => s!"store.{kind.name} {v addr}+{offset}, {v value}"
  | .globalGet ty place => s!"global_get.{ty.name} gd[{place}]"
  | .globalSet ty place value => s!"global_set.{ty.name} gd[{place}], {v value}"
  | .memorySize => "memory_size"
  | .memoryGrow delta => s!"memory_grow {v delta}"
  | .splat shape a => s!"splat.{shape.name} {v a}"
  | .extractLane shape signed lane vector =>
    "extract_lane." ++ shape.name ++ (if signed then "_s" else "") ++ s!" {v vector}[{lane}]"
  | .replaceLane shape lane vector value =>
    s!"replace_lane.{shape.name} {v vector}[{lane}], {v value}"
  | .shuffle a b lanes =>
    s!"shuffle {v a}, {v b}, [" ++ ", ".intercalate (lanes.map toString) ++ "]"
  | .call callee args => s!"call func{callee}(" ++ f.valuesText args ++ ")"
  | .callImport i _ args => s!"call_import import{i}(" ++ f.valuesText args ++ ")"
  | .callIndirect sig _ _ index args =>
    s!"call_indirect sig{sig} {v index}(" ++ f.valuesText args ++ ")"
  | .interruptCheck => "interrupt_check"

def exitText (f : Function) : Exit → String
  | .jump dest => "jump " ++ f.edgeText dest
  | .branch cond ifTrue ifFalse =>
    "brif " ++ f.valueText cond ++ ", " ++ f.edgeText ifTrue ++ ", " ++ f.edgeText ifFalse
  | .table index targets default =>
    "br_table " ++ f.valueText index ++ " ["
      ++ ", ".intercalate ((targets.toList ++ [default]).map f.edgeText) ++ "]"
  | .ret (some v) => "return " ++ f.valueText v
  | .ret none => "return"
  | .trap trap => "trap " ++ trap.name

def stepText (f : Function) (step : Step) : String :=
  match step.result with
  | some v => s!"v{v} = " ++ f.instText step.inst
  | none => f.instText step.inst

def blockText (f : Function) (index : Nat) (b : Block) : String :=
  let params := b.params.toList.map fun v => s!"v{v}: " ++ (f.valueTy v).name
  let lines := b.steps.toList.map f.stepText ++ (b.leave.map fun l => f.exitText l.exit).toList
  s!"block{index}(" ++ ", ".intercalate params ++ "):\n"
    ++ String.join (lines.map fun line => "    " ++ line ++ "\n")

def text (f : Function) : String :=
  "function " ++ f.sig.text ++ " \x7b\n"
    ++ String.join (f.blocks.toList.mapIdx f.blockText) ++ "\x7d"

end Function
end Wasmill.Ssa
