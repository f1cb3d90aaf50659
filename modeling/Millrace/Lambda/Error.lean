import Millrace.Lambda.Token
import Millrace.Number.Whole

/-!
# Errors of lambdas

Why a text is no lambda, with the place in the text, and why a lambda cannot be used on the columns at hand.
-/

namespace Millrace

/-- What is wrong with a lambda's text. -/
inductive ParseCause where
  | unexpectedCharacter (c : Char)
  | unterminatedText
  | integerTooLarge
  | expected (mark : Mark) (got : Option Token)
  | expectedIdentifier (got : Option Token)
  | unexpectedToken (t : Token)
  | unexpectedEnd
  | trailing (t : Token)
  | duplicateParameter (name : String)
  | calledExpression
  | unknownFunction (name : String)
  | unknownName (name : String)
  | argumentCount (f : Builtin) (n : Nat)
  deriving DecidableEq

/-- A token found in a place, or the end of the text. -/
private def gotText : Option Token → String
  | some t => t.describe
  | none => "end of input"

/-- The complaint about a call with `n` arguments. -/
def Builtin.refuses (f : Builtin) (n : Nat) : String :=
  f.name ++ "() does not take " ++ Digits.text n ++ " argument(s)"

def ParseCause.message : ParseCause → String
  | unexpectedCharacter c => "unexpected character '" ++ c.toString ++ "'"
  | unterminatedText => "unterminated string literal"
  | integerTooLarge => "invalid integer literal: number too large to fit in target type"
  | expected mark got => "expected " ++ mark.name ++ ", got " ++ gotText got
  | expectedIdentifier got => "expected identifier, got " ++ gotText got
  | unexpectedToken t => "unexpected token " ++ t.describe
  | unexpectedEnd => "unexpected end of input"
  | trailing t => "unexpected token after expression: " ++ t.describe
  | duplicateParameter name => "duplicate parameter '" ++ name ++ "'"
  | calledExpression => "only named functions can be called"
  | unknownFunction name => "unknown function '" ++ name ++ "'"
  | unknownName name => "unknown name '" ++ name ++ "'"
  | argumentCount f n => f.refuses n

/-- A fault in a text, at the position of a character or at the end. -/
structure ParseError where
  cause : ParseCause
  position : Option Nat
  deriving DecidableEq

/-- The line and the column, both from one, of the character after `before`. -/
def lineColumn (before : List Char) : Nat × Nat :=
  before.foldl (fun (line, column) c => if c = '\n' then (line + 1, 1) else (line, column + 1)) (1, 1)

/-- The line and the column of a fault in a text. -/
def ParseError.lineColumn (e : ParseError) (text : List Char) : Nat × Nat :=
  Millrace.lineColumn (match e.position with
    | some n => text.take n
    | none => text)

inductive LambdaError where
  | parse (line column : Nat) (cause : ParseCause)
  | unboundParam (i arity : Nat)
  | argumentCount (f : Builtin) (n : Nat)
  | noColumns (name : String)
  | unknownColumn (name : String)
  deriving DecidableEq

def LambdaError.message : LambdaError → String
  | parse line column cause =>
    "parse error at line " ++ Digits.text line ++ ", col " ++ Digits.text column ++ ": " ++ cause.message
  | unboundParam i arity =>
    "body references parameter " ++ Digits.text i ++ " but the function takes " ++ Digits.text arity
  | argumentCount f n => f.refuses n
  | noColumns name => "column access by name ('" ++ name ++ "') on a dataset without column names"
  | unknownColumn name => "unknown column '" ++ name ++ "'"

end Millrace
