import Millrace.Pipeline.Run

/-!
# Datasets

A dataset is a list of source rows, possibly with column names, and the stages that are to run over them.  The
operations on datasets add stages and keep track of the column names; nothing runs until an action asks for the
rows (`Dataset.run`).  The names are checked when a stage is added, and named columns in lambdas are bound then, which
may take an identity out of the registry; identities that a failed operation took stay free.
-/

namespace Millrace

/-- What all datasets of a session share. -/
structure Session where
  settings : Settings
  /-- Whether running and future runs are to stop. -/
  cancelled : Bool := false

namespace Session

/-- A session with settings that were checked. -/
def new (settings : Settings) : Except Failure Session := do
  settings.check
  return { settings }

/-- Stops all runs of a session. -/
def cancel (s : Session) : Session := { s with cancelled := true }

end Session

structure Dataset where
  source : List Row
  columns : Option (List String) := none
  stages : List Stage := []
  /-- The names of the columns that the lambda of the last stage sees. -/
  lastInput : Option (List String) := none
  /-- The report of the last run that came to its end. -/
  report : Option Report := none

/-- The first name that occurs a second time. -/
def repeated? : List String → List String → Option String
  | _, [] => none
  | seen, name :: rest => if name ∈ seen then some name else repeated? (name :: seen) rest

namespace Dataset

/-- A dataset without column names. -/
def ofValues (values : List Value) : Dataset := { source := values.map Row.ofValue }

/-- A dataset with column names, which have to be distinct. -/
def ofColumns (values : List Value) (columns : List String) : Except Failure Dataset :=
  match repeated? [] columns with
  | some name => .error (.config (.duplicateColumn name))
  | none => .ok { ofValues values with columns := some columns }

/-! ### Adding stages -/

/-- Adds a stage, after which the columns have the names `columns`. -/
def push (d : Dataset) (action : Action) (columns lastInput : Option (List String)) : Dataset :=
  { d with stages := d.stages ++ [{ action }], columns, lastInput, report := none }

/-- A lambda that was made for an operation, unless that failed, with the registry then. -/
abbrev Made := Except LambdaError (Registered × Registry)

/-- Binds a lambda to column names.  It may get a new identity then. -/
def bind (f : Made) (columns : Option (List String)) : Except Failure (Registered × Registry) :=
  match f >>= fun (f, registry) => registry.bindColumns f columns with
  | .ok bound => .ok bound
  | .error e => .error (.lambda e)

/-- Replaces every row by the value of a lambda. -/
def map (d : Dataset) (f : Made) : Except Failure (Dataset × Registry) := do
  let (f, registry) ← bind f d.columns
  return (d.push (.map f) none d.columns, registry)

/-- Keeps the rows for which the value of a lambda counts as true. -/
def filter (d : Dataset) (f : Made) : Except Failure (Dataset × Registry) := do
  let (f, registry) ← bind f d.columns
  return (d.push (.filter f) d.columns d.columns, registry)

/-- The column names, which an operation needs. -/
def names (d : Dataset) (op : Operation) : Except Failure (List String) :=
  match d.columns with
  | some names => .ok names
  | none => .error (.config (.noColumnNames op))

/-- The position of a column. -/
def position (d : Dataset) (op : Operation) (name : String) : Except Failure Nat := do
  let names ← d.names op
  match names.idxOf? name with
  | some i => return i
  | none => throw (.config (.unknownColumn op name))

/-- Applies a lambda of one parameter to a column and puts the value in its place. -/
def mapColumn (d : Dataset) (name : String) (f : Made) : Except Failure (Dataset × Registry) := do
  let column ← d.position .mapColumn name
  let (f, registry) ← bind f none
  if f.lambda.arity = 1 then return (d.push (.mapColumn column f) d.columns none, registry)
  else throw (.config (.parameterCount name f.lambda.arity))

/-- Makes a column of the value of a lambda on the whole row, in place of a column of that name or at the end. -/
def withColumn (d : Dataset) (name : String) (f : Made) : Except Failure (Dataset × Registry) := do
  let names ← d.names .withColumn
  let (f, registry) ← bind f (some names)
  let column := names.idxOf? name
  let after := if column.isSome then names else names ++ [name]
  return (d.push (.withColumn column f) (some after) d.columns, registry)

/-- Makes rows of some of the columns, in the given order. -/
def selectColumns (d : Dataset) (names : List String) : Except Failure Dataset := do
  let positions ← names.mapM (d.position .selectColumns)
  return d.push (.select positions) (some names) none

/-- Gives a column another name; no other column may have it. -/
def renameColumn (d : Dataset) (source target : String) : Except Failure Dataset := do
  let column ← d.position .renameColumn source
  let names ← d.names .renameColumn
  if target ∈ names.eraseIdx column then throw (.config (.columnExists target))
  else return { d with columns := some (names.set column target), report := none }

/-- Drops rows that occurred before. -/
def unique (d : Dataset) : Dataset := d.push .unique d.columns none

/-- A handler needs a kind of fault that can be handled, and a last stage with a lambda. -/
def checkHandler (d : Dataset) (op : Operation) (kind : FaultKind) : Except Failure Unit :=
  if kind.isFatal then .error (.config (.fatalKind op kind))
  else if (d.stages.getLast?.bind (·.action.lambda?)).isSome then .ok ()
  else .error (.config (.noFunction op))

/-- Adds a handler to the last stage. -/
def addHandler (d : Dataset) (h : Handler) : Dataset :=
  { d with
    stages := d.stages.dropLast ++ d.stages.getLast?.toList.map fun s => { s with handlers := s.handlers ++ [h] }
    report := none }

/-- Resolves a kind of fault in the last stage by another lambda. -/
def resolve (d : Dataset) (kind : FaultKind) (f : Made) : Except Failure (Dataset × Registry) := do
  d.checkHandler .resolve kind
  let (f, registry) ← bind f d.lastInput
  return (d.addHandler (.resolve kind f.lambda), registry)

/-- Drops the rows that fail with a kind of fault in the last stage. -/
def ignore (d : Dataset) (kind : FaultKind) : Except Failure Dataset := do
  d.checkHandler .ignore kind
  return d.addHandler (.ignore kind)

/-! ### Actions -/

/-- The rows that come out of all stages, and the dataset with the report of the run. -/
def run (d : Dataset) (session : Session) : Except Failure (List Row × Dataset) := do
  let partitions := Partition.split session.settings.partitionSize d.source
  let (partitions, report) ← runPipeline session.settings session.cancelled d.stages partitions
  return (partitions.flatten, { d with report := some report })

/-- The values that come out of all stages. -/
def collect (d : Dataset) (session : Session) : Except Failure (List Value × Dataset) := do
  let (rows, d) ← d.run session
  return (rows.map Row.toValue, d)

/-- The first `n` values that come out of all stages. -/
def take (d : Dataset) (session : Session) (n : Nat) : Except Failure (List Value × Dataset) := do
  let (rows, d) ← d.run session
  return ((rows.take n).map Row.toValue, d)

/-- The schema of the rows that come out of all stages. -/
def schema (d : Dataset) (session : Session) : Except Failure (Schema × Dataset) := do
  let (rows, d) ← d.run session
  return (session.settings.inference.infer rows, d)

end Dataset
end Millrace
