import Millrace.Document.Tree

/-!
# Bodies of HCL

The table that the attributes and blocks of a body make up.  An attribute takes the place of all that its name held
before it.  Blocks of the same name come together: those without labels make up a list, unless there is only one, and
those with labels a table with their first labels as keys.
-/

namespace Millrace.Document.Hcl

/-- What stands in a body. -/
inductive Structure where
  | attr (name : String) (d : Document)
  | block (name : String) (labels : List String) (body : Document)

/-- The name of an attribute. -/
def Structure.attrName? : Structure → Option String
  | attr name _ => some name
  | block .. => none

/-- What a name holds. -/
inductive Item where
  | attr (d : Document)
  /-- The bodies of blocks without labels. -/
  | bodies (ds : List Document)
  /-- The blocks with labels, by their first ones. -/
  | labelled (entries : List (String × Item))

/-- Sets a name to what `f` makes of what it holds. -/
def put (name : String) (f : Option Item → Item) : List (String × Item) → List (String × Item)
  | [] => [(name, f none)]
  | (other, item) :: rest =>
    if other = name then (other, f (some item)) :: rest else (other, item) :: put name f rest

/-- What a name holds after a block with these labels; a block takes the place of what it cannot come together with. -/
def Item.addBlock (body : Document) : List String → Option Item → Item
  | [], some (bodies ds) => bodies (ds ++ [body])
  | [], _ => bodies [body]
  | label :: labels, some (labelled entries) => labelled (put label (addBlock body labels) entries)
  | label :: labels, _ => labelled [(label, addBlock body labels none)]

/-- Takes in what follows in a body. -/
def Structure.addTo (items : List (String × Item)) : Structure → List (String × Item)
  | attr name d => put name (fun _ => .attr d) items
  | block name labels body => put name (Item.addBlock body labels) items

mutual

/-- The document for what a name holds. -/
def Item.toDocument : Item → Document
  | attr d => d
  | bodies [d] => d
  | bodies ds => .list ds
  | labelled entries => .table (Item.toEntries entries)

def Item.toEntries : List (String × Item) → List (String × Document)
  | [] => []
  | (name, item) :: rest => (name, item.toDocument) :: Item.toEntries rest

end

/-- The table that a body makes up.  No two of its attributes have the same name. -/
def tableOf? (body : List Structure) : Option Document :=
  if (body.filterMap Structure.attrName?).Nodup then
    some (.table (Item.toEntries (body.foldl Structure.addTo [])))
  else none

end Millrace.Document.Hcl
