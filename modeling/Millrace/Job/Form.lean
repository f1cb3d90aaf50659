import Millrace.Document.SchemaForm
import Millrace.Job.Basic

/-!
# Jobs as documents

How a job is written down in a document.  A group of fields is a table with their names as keys, where other keys
are passed over, or a list of the fields in their order, of which the last ones may be missing.  Some formats pass
over what a list holds beyond its fields: there `surplus` is true.
-/

namespace Millrace

/-- The fields of a group, as far as they are there. -/
def Document.fields? (surplus : Bool) (names : List String) : Document → Option (List (Option Document))
  | .table entries => names.mapM fun name =>
    match Document.entriesOf name entries with
    | [] => some none
    | [d] => some (some d)
    | _ => none
  | .list items =>
    if surplus || items.length ≤ names.length then
      some ((items.take names.length).map some ++ List.replicate (names.length - items.length) none)
    else none
  | _ => none

/-- A field that has a value where it is missing. -/
def Document.field {α : Type} (otherwise : α) (read : Document → Option α) : Option Document → Option α
  | none => some otherwise
  | some d => read d

/-! ### Plain fields -/

def Document.bool? : Document → Option Bool
  | .bool b => some b
  | _ => none

def Document.text? : Document → Option String
  | .str s => some s
  | _ => none

def Document.count? : Document → Option Nat
  | .int n => if 0 ≤ n then some n.toNat else none
  | _ => none

def Document.number? : Document → Option Float
  | .float x => some x.toFloat
  | .int n => some (Float.ofInt n)
  | _ => none

def Document.list? {α : Type} (read : Document → Option α) : Document → Option (List α)
  | .list items => items.mapM read
  | _ => none

def Document.optional? {α : Type} (read : Document → Option α) : Document → Option (Option α)
  | .null => some none
  | d => (read d).map some

/-- A kind of fault, given by its name, which may be the key of an empty table. -/
def FaultKind.ofDocument? : Document → Option FaultKind
  | .table [(name, .table [])] => FaultKind.ofName? name
  | d => d.plainChoice?.bind FaultKind.ofName?

/-! ### Settings -/

namespace Settings

/-- Takes over how rows are worked on. -/
def withExecutor (surplus : Bool) (s : Settings) (d : Document) : Option Settings := do
  let [workers, partitionSize, batchSize] ← d.fields? surplus ["workers", "partition_size", "batch_size"] | none
  return { s with
    workers := ← Document.field s.workers Document.count? workers
    partitionSize := ← Document.field s.partitionSize Document.count? partitionSize
    batchSize := ← Document.field s.batchSize Document.count? batchSize }

/-- Takes over how schemas are guessed. -/
def withInference (surplus : Bool) (s : Settings) (d : Document) : Option Settings := do
  let [sampleSize, threshold] ← d.fields? surplus ["sample_size", "normal_case_threshold"] | none
  return { s with
    inference :=
      { sampleSize := ← Document.field s.inference.sampleSize Document.count? sampleSize
        threshold := ← Document.field s.inference.threshold Document.number? threshold } }

/-- Takes over whether fast paths are used. -/
def withFastPath (surplus : Bool) (s : Settings) (d : Document) : Option Settings := do
  let [enabled] ← d.fields? surplus ["enabled"] | none
  return { s with fastPath := ← Document.field s.fastPath Document.bool? enabled }

/-- The settings that a document stands for, where `s` holds what it does not say. -/
def ofDocument? (surplus : Bool) (s : Settings) (d : Document) : Option Settings := do
  let [executor, inference, fastPath] ← d.fields? surplus ["executor", "inference", "fast_path"] | none
  let s ← Document.field s (withExecutor surplus s) executor
  let s ← Document.field s (withInference surplus s) inference
  Document.field s (withFastPath surplus s) fastPath

end Settings

/-! ### Operations -/

namespace JobStep

/-- The names of the fields of an operation. -/
def fieldNames : String → List String
  | "map" | "filter" => ["udf"]
  | "map_column" | "with_column" => ["column", "udf"]
  | "select_columns" => ["columns"]
  | "rename_column" => ["from", "to"]
  | "resolve" => ["kind", "udf"]
  | "ignore" => ["kind"]
  | _ => []

/-- The operation of a name with these fields. -/
def ofFields? : String → List Document → Option JobStep
  | "map", [f] => map <$> f.text?
  | "filter", [f] => filter <$> f.text?
  | "map_column", [column, f] => mapColumn <$> column.text? <*> f.text?
  | "with_column", [column, f] => withColumn <$> column.text? <*> f.text?
  | "select_columns", [columns] => selectColumns <$> columns.list? Document.text?
  | "rename_column", [source, target] => renameColumn <$> source.text? <*> target.text?
  | "unique", [] => some unique
  | "resolve", [kind, f] => resolve <$> FaultKind.ofDocument? kind <*> f.text?
  | "ignore", [kind] => ignore <$> FaultKind.ofDocument? kind
  | _, _ => none

/-- The name of an operation and the document that holds its fields. -/
def parts? : Document → Option (String × Document)
  | .table entries =>
    match Document.entriesOf "op" entries with
    | [.str op] => some (op, .table entries)
    | _ => none
  | .list (.str op :: rest) => some (op, .list rest)
  | _ => none

/-- The operation that a document stands for.  All of the document has to be readable, and a list has no surplus. -/
def ofDocument? (d : Document) : Option JobStep := do
  let (op, d) ← if d.isReadable then parts? d else none
  let fields ← d.fields? false (fieldNames op)
  ofFields? op (← fields.mapM id)

end JobStep

/-! ### Jobs -/

/-- The source rows and the column names. -/
def sourceOfDocument? (surplus : Bool) (d : Document) : Option (List Value × Option (List String)) := do
  let [rows, columns] ← d.fields? surplus ["rows", "columns"] | none
  let rows ← (← rows).list? Document.toValue?
  let columns ← Document.field none (Document.optional? (Document.list? Document.text?)) columns
  return (rows, columns)

/-- The job that a document stands for, where `s` holds the settings that it does not give. -/
def Job.ofDocument? (surplus : Bool) (s : Settings) (d : Document) : Option Job := do
  let [engine, source, stages] ← d.fields? surplus ["engine", "source", "stage"] | none
  let settings ← Document.field s (Settings.ofDocument? surplus s) engine
  let (rows, columns) ← sourceOfDocument? surplus (← source)
  let steps ← Document.field [] (Document.list? JobStep.ofDocument?) stages
  return { settings, rows, columns, steps }

end Millrace
