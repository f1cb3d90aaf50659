import Millrace.Lambda.Basic

/-!
# Registered lambdas

A registry gives every lambda that is made an identity of its own.  A lambda that binding leaves as it is keeps its
identity; one whose named columns are replaced gets a new one.  So registered lambdas with the same identity are
the same lambda.
-/

namespace Millrace

/-- The identity of a registered lambda. -/
abbrev LambdaId := Nat

structure Registered where
  id : LambdaId
  lambda : Lambda

/-- The text of a registered lambda: its source, or for a built one its identity and its number of parameters. -/
def Registered.text (f : Registered) : String :=
  f.lambda.source.getD ("<udf#" ++ Digits.text f.id ++ "/" ++ Digits.text f.lambda.arity ++ ">")

/-- The source of identities: those from `next` on are free. -/
structure Registry where
  next : LambdaId := 1

namespace Registry

/-- Gives a lambda a new identity. -/
def register (r : Registry) (f : Lambda) : Registered × Registry := (⟨r.next, f⟩, ⟨r.next + 1⟩)

/-- Reads a lambda and registers it. -/
def parse (r : Registry) (text : String) : Except LambdaError (Registered × Registry) :=
  r.register <$> Lambda.parse text

/-- Makes a lambda of an expression and registers it. -/
def build (r : Registry) (params : List String) (body : Expr) : Except LambdaError (Registered × Registry) :=
  r.register <$> Lambda.build params body

/-- Binds the named columns of a registered lambda. -/
def bindColumns (r : Registry) (f : Registered) (columns : Option (List String)) :
    Except LambdaError (Registered × Registry) :=
  if f.lambda.hasFields then r.register <$> f.lambda.bindColumns columns else .ok (f, r)

end Registry
end Millrace
