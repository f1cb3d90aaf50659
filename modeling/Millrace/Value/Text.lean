import Millrace.Number.Decimal
import Millrace.Text.Quoted
import Millrace.Value

/-!
# The text of a value

A value on its own prints without quotes (`Value.text`); inside a tuple a text takes quotes (`Value.repr`).
-/

namespace Millrace.Value

mutual

/-- The text of a value inside a tuple. -/
def repr : Value → String
  | .bool true => "True"
  | .bool false => "False"
  | .int n => Digits.signed n.toInt
  | .float x => reportText x.toFloat
  | .str s => Text.quoted s
  | .tuple items => "(" ++ reprItems items ++ (if items.length = 1 then "," else "") ++ ")"

/-- The items of a tuple, separated by commas. -/
def reprItems : List Value → String
  | [] => ""
  | [v] => repr v
  | v :: rest => repr v ++ ", " ++ reprItems rest

end

/-- The text of a value on its own. -/
def text : Value → String
  | .str s => s
  | v => v.repr

end Millrace.Value
