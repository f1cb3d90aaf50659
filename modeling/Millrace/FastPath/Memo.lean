import Millrace.FastPath.Compiled
import Millrace.Lambda.Registry

/-!
# Remembered fast paths

A memo keeps the fast paths of registered lambdas, one for each identity and schema.  That a lambda has no fast
path under a schema is remembered too.
-/

namespace Millrace.FastPath

structure Memo where
  entries : List ((LambdaId × Schema) × Option Compiled) := []
  /-- How many requests were answered from the entries. -/
  hits : Nat := 0

namespace Memo

/-- The number of identities and schemas that were asked for. -/
def size (m : Memo) : Nat := m.entries.length

def isEmpty (m : Memo) : Bool := m.entries.isEmpty

/-- The fast path of a lambda under a schema, if it has one. -/
def get (m : Memo) (f : Registered) (schema : Schema) : Option Compiled × Memo :=
  match m.entries.lookup (f.id, schema) with
  | some entry => (entry, { m with hits := m.hits + 1 })
  | none =>
    let entry := (compile f.lambda schema).toOption
    (entry, { m with entries := ((f.id, schema), entry) :: m.entries })

end Memo
end Millrace.FastPath
