import Wasmill.Wasm.Valid.Code

/-! Checking constant expressions. -/
namespace Wasmill.Wasm

/-- The operators that constant expressions are made of; globals have to be immutable. -/
def Operator.isConstant (ctx : Context) : Operator → Bool
  | .const _ => true
  | .binary op =>
    match op with
    | .i32Add | .i32Sub | .i32Mul | .i64Add | .i64Sub | .i64Mul => true
    | _ => false
  | .globalGet index => ctx.globals[index]?.any (!·.mutable)
  | .extra _ what =>
    match what with
    | .refNull _ | .refFunc _ | .refI31 => true
    | _ => false
  | _ => false

namespace Context

/-- Functions that an expression takes references of. -/
def referred (ops : List (Operator × Nat)) : List Nat :=
  ops.filterMap fun
    | (.extra _ (.refFunc func), _) => some func
    | _ => none

/-- Checks a constant expression of the given type. Functions it refers to become referable. -/
def checkConst (ctx : Context) (ty : Ty) (expr : ConstExpr) : Except Error Context := do
  require (expr.ops.all fun (op, _) => op.isConstant ctx) "constant expression required"
  let ctx := { ctx with referable := referred expr.ops ++ ctx.referable }
  let code : Check Unit := do
    expr.ops.forM fun (op, _) => Check.operator op
    Check.operator .close
  let whole : Scope :=
    { opened := .block, ty := ⟨[], [ty]⟩, height := 0, unreachable := false, assigned := [] }
  let _ ← code.run { ctx, locals := #[], scopes := [whole] }
  return ctx

end Context
end Wasmill.Wasm
