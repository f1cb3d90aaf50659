import Millrace.Document.Tree

/-!
# Tables of TOML

The table that the lines of a document build up.  How a table came about decides what may still be added to it: a
header may open a table only once, dotted keys extend only the tables that dotted keys made, and a value is never
extended.
-/

namespace Millrace.Document.Toml

/-- How a table came about. -/
inductive Origin where
  /-- It has a header of its own. -/
  | header
  /-- It lies on the way to a table with a header. -/
  | path
  /-- It was made by a dotted key. -/
  | dotted
  deriving DecidableEq

/-- What a key in a table stands for. -/
inductive Node where
  | value (d : Document)
  | table (origin : Origin) (entries : List (String × Node))
  /-- The tables of a list that grows by headers. -/
  | tables (items : List (List (String × Node)))

abbrev Entries := List (String × Node)

namespace Entries

/-- Sets a key to what `f` makes of what it stands for. -/
def update (key : String) (f : Option Node → Option Node) : Entries → Option Entries
  | [] => (f none).map fun node => [(key, node)]
  | (k, node) :: rest =>
    if k = key then (f (some node)).map fun node => (k, node) :: rest
    else (update key f rest).map ((k, node) :: ·)

/-- Changes the last table of a list. -/
def updateLast (f : Entries → Option Entries) : List Entries → Option (List Entries)
  | [] => none
  | [last] => (f last).map ([·])
  | first :: rest => (updateLast f rest).map (first :: ·)

/-- Sets a dotted key to a document. -/
def insert (key : String) (d : Document) : List String → Entries → Option Entries
  | [] => update key fun
    | none => some (.value d)
    | some _ => none
  | k :: path => update k fun
    | none => (insert key d path []).map (.table .dotted)
    | some (.table .dotted entries) => (insert key d path entries).map (.table .dotted)
    | some (.table .path entries) =>
      if path.isEmpty then none else (insert key d path entries).map (.table .path)
    | some (.tables items) =>
      if path.isEmpty then none else (updateLast (insert key d path) items).map .tables
    | some _ => none

/-- Changes the table at the end of a path of headers; in a list of tables it is the last one. -/
def descend (f : Entries → Option Entries) : List String → Entries → Option Entries
  | [] => f
  | k :: path => update k fun
    | none => (descend f path []).map (.table .path)
    | some (.table origin entries) => (descend f path entries).map (.table origin)
    | some (.tables items) => (updateLast (descend f path) items).map .tables
    | some (.value _) => none

/-- Opens a table. -/
def openTable (path : List String) (key : String) : Entries → Option Entries :=
  descend (update key fun
    | none => some (.table .header [])
    | some (.table .path entries) => some (.table .header entries)
    | some _ => none) path

/-- Opens the next table of a list. -/
def openItem (path : List String) (key : String) : Entries → Option Entries :=
  descend (update key fun
    | none => some (.tables [[]])
    | some (.tables items) => some (.tables (items ++ [[]]))
    | some _ => none) path

end Entries

mutual

/-- The document that a node stands for. -/
def Node.toDocument : Node → Document
  | value d => d
  | table _ entries => .table (Node.toEntries entries)
  | tables items => .list (Node.toTables items)

def Node.toEntries : List (String × Node) → List (String × Document)
  | [] => []
  | (key, node) :: rest => (key, node.toDocument) :: Node.toEntries rest

def Node.toTables : List (List (String × Node)) → List Document
  | [] => []
  | entries :: rest => .table (Node.toEntries entries) :: Node.toTables rest

end

end Millrace.Document.Toml
