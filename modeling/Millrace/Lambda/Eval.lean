import Millrace.Lambda.Basic
import Millrace.Lambda.Call

/-!
# Evaluation

The general evaluator: it takes values of any kinds and finds out as it goes which operations they support.
-/

namespace Millrace
namespace Expr

mutual

/-- The value of an expression whose parameters have the values `args`. -/
def eval (args : List Value) : Expr → RowResult Value
  | const v => .ok v
  | param i =>
    match args[i]? with
    | some v => .ok v
    | none => fault (.missingArgument i)
  | unary op e => do
    let v ← eval args e
    op.apply v
  | binary op a b => do
    let v ← eval args a
    let w ← eval args b
    op.apply v w
  | compare first links => do
    let v ← eval args first
    evalLinks args v links
  | and a b => do
    let v ← eval args a
    if v.truthy then eval args b else return v
  | or a b => do
    let v ← eval args a
    if v.truthy then return v else eval args b
  | ifElse c y n => do
    let v ← eval args c
    if v.truthy then eval args y else eval args n
  | call f es => do
    let vs ← evalAll args es
    f.apply vs
  | tuple es => do
    let vs ← evalAll args es
    return .tuple vs
  | index base i => do
    let v ← eval args base
    let w ← eval args i
    v.at w
  | field _ name => fault (.unboundColumn name)

/-- The values of several expressions, from left to right. -/
def evalAll (args : List Value) : List Expr → RowResult (List Value)
  | [] => .ok []
  | e :: rest => do
    let v ← eval args e
    let vs ← evalAll args rest
    return v :: vs

/-- A chain of comparisons whose left operand is `left`; it ends at the first that does not hold. -/
def evalLinks (args : List Value) (left : Value) : List (CompareOp × Expr) → RowResult Value
  | [] => .ok (.bool true)
  | (op, e) :: rest => do
    let right ← eval args e
    if ← op.apply left right then evalLinks args right rest else return .bool false

end

end Expr

/-- The arguments that a lambda of `arity` parameters takes from a row: the columns one by one, or for a single
parameter the whole row as a tuple. -/
def bindArguments (arity : Nat) (row : Row) : RowResult (List Value) :=
  if arity = row.length then .ok row
  else if arity = 1 then .ok [.tuple row]
  else fault (.rowWidth arity row.length)

/-- The value of a lambda on a row. -/
def Lambda.eval (f : Lambda) (row : Row) : RowResult Value := do
  let args ← bindArguments f.arity row
  f.body.eval args

end Millrace
