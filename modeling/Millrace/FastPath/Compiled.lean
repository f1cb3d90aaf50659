import Millrace.FastPath.Lowering
import Millrace.Lambda.Basic

/-!
# Fast paths

A lambda compiled for the rows of one schema.  A fast path never gives a value that the general evaluator would
not give; whenever it gives up, the row goes to the general evaluator.
-/

namespace Millrace.FastPath

structure Compiled where
  schema : Schema
  /-- The type of every result. -/
  output : ValueType
  run : Compute Value

/-- The value of a fast path on a row. -/
def Compiled.call (c : Compiled) (row : Row) : Except Reason Value :=
  if c.schema.conforms row then c.run row else .error .nonconforming

/-- The parameters of a lambda on rows of these columns: the columns one by one, or for a single parameter the
whole row as a tuple. -/
def parameters (arity : Nat) (columns : List Lowered) : Lowering (List Lowered) :=
  if arity = columns.length then .ok columns
  else if arity = 1 then .ok [.tuple columns ⟨true, none⟩]
  else .error (.arity arity columns.length)

/-- The lowered parameters of a lambda on rows of a schema. -/
def schemaParameters (f : Lambda) (schema : Schema) : Lowering (List Lowered) :=
  match schema.columns?.filter ValueType.areConcrete with
  | none => .error (.unknownPositions schema)
  | some types =>
    match Lowered.ofColumns? types with
    | none => .error .unknownColumn
    | some columns => parameters f.arity columns

/-- Compiles a lambda for rows of a schema. -/
def compile (f : Lambda) (schema : Schema) : Lowering Compiled := do
  let params ← schemaParameters f schema
  let body ← lower params f.body
  return ⟨schema, body.type, body.run⟩

end Millrace.FastPath
