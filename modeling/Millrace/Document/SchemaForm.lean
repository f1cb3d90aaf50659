import Millrace.Document.Tree
import Millrace.Schema

/-!
# Schemas as documents

A type without parts is its name; a tuple is a table with the one key `tuple`; a schema is `unspecialized` or a
table with the one key `row`.
-/

namespace Millrace

/-- The name that a document gives to a choice without contents. -/
def Document.plainChoice? : Document → Option String
  | .str name => some name
  | .table [(name, .null)] => some name
  | _ => none

mutual

/-- A type as a document. -/
def ValueType.toDocument : ValueType → Document
  | .bool => .str "bool"
  | .int => .str "int"
  | .float => .str "float"
  | .str => .str "str"
  | .unknown => .str "unknown"
  | .tuple items => .table [("tuple", .list (ValueType.toDocuments items))]

def ValueType.toDocuments : List ValueType → List Document
  | [] => []
  | t :: rest => t.toDocument :: ValueType.toDocuments rest

end

/-- The type of that name. -/
def ValueType.ofName? : String → Option ValueType
  | "bool" => some .bool
  | "int" => some .int
  | "float" => some .float
  | "str" => some .str
  | "unknown" => some .unknown
  | _ => none

mutual

/-- The type that a document stands for. -/
def ValueType.ofDocument? : Document → Option ValueType
  | .str name => ValueType.ofName? name
  | .table [("tuple", .list items)] => (ValueType.ofDocuments? items).map .tuple
  | .table [(name, .null)] => ValueType.ofName? name
  | _ => none

def ValueType.ofDocuments? : List Document → Option (List ValueType)
  | [] => some []
  | d :: rest => do
    let t ← ValueType.ofDocument? d
    let ts ← ValueType.ofDocuments? rest
    return t :: ts

end

/-- A schema as a document. -/
def Schema.toDocument : Schema → Document
  | .unspecialized => .str "unspecialized"
  | .row columns => .table [("row", .list (ValueType.toDocuments columns))]

/-- The schema that a document stands for. -/
def Schema.ofDocument? : Document → Option Schema
  | .table [("row", .list items)] => (ValueType.ofDocuments? items).map .row
  | d => if d.plainChoice? = some "unspecialized" then some .unspecialized else none

end Millrace
