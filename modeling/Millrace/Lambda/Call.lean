import Millrace.Lambda.Operation
import Millrace.Value.Text

/-!
# Calls of builtin functions

What each builtin function does with its arguments.
-/

namespace Millrace

/-- The argument `v` of `f` as a float. -/
def Builtin.realArgument (f : Builtin) (v : Value) : RowResult Double :=
  match v.number? with
  | some x => .ok x.toDouble
  | none => fault (.notReal f v.tag)

/-- Rounds the argument `v` of `f`; integers stay as they are. -/
def Builtin.round (f : Builtin) (rounding : Double → RowResult Int64) (v : Value) : RowResult Value :=
  match v.number? with
  | some (.int n) => .ok (.int n)
  | some (.float x) => Value.int <$> rounding x
  | none => fault (.notReal f v.tag)

/-! ### The greatest and the least -/

/-- The comparison by which a new item replaces the best so far. -/
def Extremum.better : Extremum → CompareOp
  | min => .lt
  | max => .gt

/-- The best of `best` and the items, the first of several that are equally good. -/
def Extremum.among (f : Extremum) (best : Value) : List Value → RowResult Value
  | [] => .ok best
  | v :: rest => do
    if ← f.better.apply v best then f.among v rest else f.among best rest

/-- The greatest or least of several values, or of the items of one tuple. -/
def Extremum.apply (f : Extremum) (args : List Value) : RowResult Value :=
  match args with
  | [.tuple []] | [] => fault (.emptySequence f)
  | [.tuple (first :: rest)] => f.among first rest
  | [v] => fault (.extremumArgument f v.tag)
  | first :: rest => f.among first rest

/-! ### Conversions -/

/-- What a conversion gives without an argument. -/
def Conversion.default : Conversion → Value
  | int => .int 0
  | float => .float 0
  | bool => .bool false
  | str => .str ""

def Conversion.apply : Conversion → Value → RowResult Value
  | int, .str s => Value.int <$> RealNumber.readInteger s
  | int, v => (Builtin.convert int).round RealNumber.truncate v
  | float, .str s => Value.float <$> RealNumber.readFloat s
  | float, v => Value.float <$> (Builtin.convert float).realArgument v
  | bool, v => .ok (.bool v.truthy)
  | str, v => .ok (.str v.text)

/-! ### All functions -/

/-- The number of characters or items. -/
def Value.length : Value → RowResult Value
  | .str s => .ok (.int (Int64.ofNat s.length))
  | .tuple items => .ok (.int (Int64.ofNat items.length))
  | v => fault (.noLength v.tag)

def Value.abs (v : Value) : RowResult Value :=
  match v.number? with
  | some (.int n) => Value.int <$> Whole.abs n
  | some (.float x) => .ok (.float (x.abs))
  | none => fault (.absOperand v.tag)

/-- Calls a function. -/
def Builtin.apply (f : Builtin) (args : List Value) : RowResult Value :=
  match f, args with
  | log, [v] => do
    let x ← f.realArgument v
    Value.float <$> RealNumber.log x
  | log, [v, w] => do
    let x ← f.realArgument v
    let base ← f.realArgument w
    Value.float <$> RealNumber.logBase x base
  | real g, [v] => do
    let x ← f.realArgument v
    Value.float <$> g.apply x
  | pair g, [v, w] => do
    let x ← f.realArgument v
    let y ← f.realArgument w
    Value.float <$> g.apply x y
  | rounding g, [v] => f.round g.apply v
  | test g, [v] => do
    let x ← f.realArgument v
    return .bool (g.apply x)
  | abs, [v] => v.abs
  | extremum g, v :: rest => g.apply (v :: rest)
  | convert g, [] => .ok g.default
  | convert g, [v] => g.apply v
  | len, [v] => v.length
  | _, _ => fault (.argumentCount f args.length)

end Millrace
