import Millrace.Number.Shortest
import Millrace.Text.Escaped
import Millrace.Value

/-!
# Tokens

The tokens of lambda text, each with its place in the text.
-/

namespace Millrace

/-- Keywords and punctuation. -/
inductive Mark where
  | lambda | and | or | not | if | else | true | false
  | plus | minus | star | starStar | slash | slashSlash | percent
  | leftParen | rightParen | leftBracket | rightBracket
  | comma | colon | dot
  | eqEq | ne | lt | le | gt | ge
  deriving Repr, DecidableEq

inductive Token where
  | int (n : Int64)
  | float (x : Double)
  | str (s : String)
  | ident (name : String)
  | mark (m : Mark)
  deriving DecidableEq

/-- The name of a mark in messages. -/
def Mark.name : Mark → String
  | lambda => "Lambda"
  | and => "And"
  | or => "Or"
  | not => "Not"
  | .if => "If"
  | .else => "Else"
  | .true => "True"
  | .false => "False"
  | plus => "Plus"
  | minus => "Minus"
  | star => "Star"
  | starStar => "StarStar"
  | slash => "Slash"
  | slashSlash => "SlashSlash"
  | percent => "Percent"
  | leftParen => "LParen"
  | rightParen => "RParen"
  | leftBracket => "LBracket"
  | rightBracket => "RBracket"
  | comma => "Comma"
  | colon => "Colon"
  | dot => "Dot"
  | eqEq => "EqEq"
  | ne => "Ne"
  | lt => "Lt"
  | le => "Le"
  | gt => "Gt"
  | ge => "Ge"

/-- A token as messages quote it. -/
def Token.describe : Token → String
  | int n => "Int(" ++ Digits.signed n.toInt ++ ")"
  | float x => "Float(" ++ literalText x.toFloat ++ ")"
  | str s => "Str(" ++ Text.inMessage s ++ ")"
  | ident name => "Ident(" ++ Text.inMessage name ++ ")"
  | mark m => m.name

/-- A token with the positions of its first character and of the one after its last. -/
structure PlacedToken where
  token : Token
  start : Nat
  stop : Nat

end Millrace
