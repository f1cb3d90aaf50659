import Millrace.Lambda.Registry
import Millrace.Fault

/-!
# Stages

A stage does one thing to every row of a dataset.  Most stages apply a lambda, and such a stage may have handlers
for the faults of the lambda: one kind of fault each, to be ignored or resolved by another lambda.
-/

namespace Millrace

/-- What a stage does to each row; columns are given by their positions. -/
inductive Action where
  /-- The value becomes the row. -/
  | map (f : Registered)
  /-- Rows whose value counts as true are kept. -/
  | filter (f : Registered)
  /-- The lambda sees one column, and the value replaces it. -/
  | mapColumn (column : Nat) (f : Registered)
  /-- The value of the whole row replaces a column, or becomes a new one. -/
  | withColumn (column : Option Nat) (f : Registered)
  /-- The row becomes these columns. -/
  | select (columns : List Nat)
  /-- Rows that occurred before are dropped. -/
  | unique

namespace Action

/-- The lambda that is applied to each row, with its identity. -/
def registered? : Action → Option Registered
  | map f | filter f | mapColumn _ f | withColumn _ f => some f
  | select _ | unique => none

/-- The lambda that is applied to each row. -/
def lambda? : Action → Option Lambda
  | map f | filter f | mapColumn _ f | withColumn _ f => some f.lambda
  | select _ | unique => none

theorem lambda?_eq_map (a : Action) : a.lambda? = a.registered?.map (·.lambda) := by
  cases a <;> rfl

def name : Action → String
  | map _ => "map"
  | filter _ => "filter"
  | mapColumn _ _ => "map_column"
  | withColumn _ _ => "with_column"
  | select _ => "select"
  | unique => "unique"

/-- The columns of a row that the lambda sees, if the row has them. -/
def input? (a : Action) (row : Row) : Option Row :=
  match a with
  | mapColumn column _ => row[column]?.map ([·])
  | _ => some row

/-- The row that comes out of a stage with a lambda, for the value of the lambda on `row`. -/
def output (a : Action) (row : Row) (v : Value) : RowResult (Option Row) :=
  match a with
  | map _ => .ok (some (Row.ofValue v))
  | filter _ => .ok (if v.truthy then some row else none)
  | mapColumn column _ | withColumn (some column) _ =>
    if column < row.length then .ok (some (row.set column v)) else fault (.column column row.length)
  | withColumn none _ => .ok (some (row ++ [v]))
  | select _ | unique => .ok (some row)

end Action

/-- What happens to rows that fail with a kind of fault. -/
inductive Handler where
  /-- The value of another lambda is taken. -/
  | resolve (kind : FaultKind) (f : Lambda)
  /-- The row is dropped. -/
  | ignore (kind : FaultKind)

/-- The kind of fault that a handler takes. -/
def Handler.kind : Handler → FaultKind
  | resolve kind _ | ignore kind => kind

structure Stage where
  action : Action
  handlers : List Handler := []

namespace Stage

/-- The name of a stage tells its action and its lambda. -/
def name (s : Stage) : String :=
  match s.action.registered? with
  | some f => s.action.name ++ "(" ++ f.text ++ ")"
  | none => s.action.name

/-- The position of the first handler for a kind of fault, apart from those in the positions `used`. -/
def handlerFor? (s : Stage) (kind : FaultKind) (used : List Nat) : Option Nat :=
  (s.handlers.zipIdx.find? fun (h, i) => h.kind == kind && !used.contains i).map (·.2)

end Stage
end Millrace
