import Millrace.Lambda.Lexer
import Millrace.Lambda.Parser
import Millrace.Text.Blank

/-!
# Lambdas

A lambda has parameters and a body that mentions no others.  It is parsed from text (`Lambda.parse`) or built from
an expression (`Lambda.build`), and its named columns are bound to positions before it is applied to rows
(`Lambda.bindColumns`).
-/

namespace Millrace

/-- A function of rows. -/
structure Lambda where
  params : List String
  body : Expr
  /-- The text that the lambda was parsed from, without white space around it. -/
  source : Option String

namespace Lambda

/-- The number of parameters. -/
def arity (f : Lambda) : Nat := f.params.length

/-- Reads a lambda. -/
def parse (text : String) : Except LambdaError Lambda :=
  match Lexer.tokens text.toList >>= Parser.lambda with
  | .ok (params, body) => .ok ⟨params, body, some (Text.trim text)⟩
  | .error e =>
    let (line, column) := e.lineColumn text.toList
    .error (.parse line column e.cause)

/-- Makes a lambda of an expression: its parameters have to exist, and its calls to have arguments that their
functions take. -/
def build (params : List String) (body : Expr) : Except LambdaError Lambda :=
  match body.maxParam?.filter (params.length ≤ ·), body.badCall? with
  | some i, _ => .error (.unboundParam i params.length)
  | none, some (f, n) => .error (.argumentCount f n)
  | none, none => .ok ⟨params, body, none⟩

/-- Whether the body accesses columns by name. -/
def hasFields (f : Lambda) : Bool := f.body.hasFields

/-- The position of the column `name`. -/
def columnPosition (columns : Option (List String)) (name : String) : Except LambdaError Nat :=
  match columns with
  | none => .error (.noColumns name)
  | some names =>
    match names.idxOf? name with
    | some i => .ok i
    | none => .error (.unknownColumn name)

/-- The lambda with every named column replaced by its position; a lambda without named columns stays as it is. -/
def bindColumns (f : Lambda) (columns : Option (List String)) : Except LambdaError Lambda :=
  if f.hasFields then do
    let body ← f.body.resolveFields (columnPosition columns)
    return { f with body }
  else .ok f

end Lambda
end Millrace
