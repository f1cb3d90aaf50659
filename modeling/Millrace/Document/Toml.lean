import Millrace.Document.Toml.Scalar
import Millrace.Document.Toml.Table

/-!
# Reading TOML

The lines of a document are comments, headers and assignments.  A header names the table that the assignments below
it go to.  Lists and inline tables may be nested less than 80 deep, and a dotted key has less than 80 parts.
-/

namespace Millrace.Document.Toml

/-- What a line says. -/
inductive Line where
  /-- `[a.b.key]` -/
  | table (path : List String) (key : String)
  /-- `[[a.b.key]]` -/
  | item (path : List String) (key : String)
  /-- `a.b.key = d` -/
  | assign (path : List String) (key : String) (d : Document)

/-! ### Keys -/

def isKeyChar (c : Char) : Bool := c.isAlphanum || c = '_' || c = '-'

/-- One part of a dotted key. -/
def simpleKey : Reader String := fun cs =>
  match cs with
  | '"' :: rest => shortText '"' rest
  | '\'' :: rest => shortText '\'' rest
  | _ =>
    let (name, rest) := cs.span isKeyChar
    if name.isEmpty then none else some (String.ofList name, rest)

/-- A dotted key: the parts before the last one, and the last one.  The number of parts is at most `bound`. -/
def dottedKey : Nat → Reader (List String × String)
  | 0 => fun _ => none
  | bound + 1 => fun cs => do
    let (name, cs) ← simpleKey (skipBlank cs)
    match skipBlank cs with
    | '.' :: rest =>
      let ((path, last), cs) ← dottedKey bound rest
      return ((name :: path, last), cs)
    | cs => return (([], name), cs)

/-- How deep lists and inline tables may be nested, and how many parts a dotted key may have. -/
def maxDepth : Nat := 79

/-- A dotted key. -/
def key : Reader (List String × String) := dottedKey maxDepth

/-! ### Values -/

/-- Passes over blanks, line breaks and comments. -/
def skipLines (inComment : Bool) : List Char → List Char
  | [] => []
  | c :: rest =>
    if c = '\n' || (c = '\r' && rest.head? = some '\n') then skipLines false rest
    else if inComment then if isPlain c then skipLines true rest else c :: rest
    else if c = '#' then skipLines true rest
    else if isBlank c then skipLines false rest
    else c :: rest

/-- The table that the assignments of an inline table make. -/
def inlineTable (assignments : List ((List String × String) × Document)) : Option Document :=
  (assignments.foldlM (fun entries ((path, key), d) => Entries.insert key d path entries) []).map fun entries =>
    .table (Node.toEntries entries)

mutual

/-- A value nested at most `depth` deep; `bound` limits the number of steps. -/
def value (depth : Nat) : Nat → Reader Document
  | 0 => fun _ => none
  | bound + 1 => fun cs =>
    match cs with
    | '[' :: rest =>
      match depth, skipLines false rest with
      | 0, _ => none
      | _, ']' :: rest => some (.list [], rest)
      | depth + 1, rest => (items depth bound rest).map fun (ds, rest) => (.list ds, rest)
    | '\x7b' :: rest =>
      match depth, skipBlank rest with
      | 0, _ => none
      | _, '\x7d' :: rest => some (.table [], rest)
      | depth + 1, rest => do
        let (assignments, rest) ← assignments depth bound rest
        let d ← inlineTable assignments
        return (d, rest)
    | '"' :: _ | '\'' :: _ => Reader.map .str quotedText cs
    | _ => word cs

/-- The items of a list that is not empty, up to its bracket. -/
def items (depth : Nat) : Nat → Reader (List Document)
  | 0 => fun _ => none
  | bound + 1 => fun cs => do
    let (d, cs) ← value depth bound cs
    match skipLines false cs with
    | ']' :: rest => return ([d], rest)
    | ',' :: rest =>
      match skipLines false rest with
      | ']' :: rest => return ([d], rest)
      | rest =>
        let (ds, rest) ← items depth bound rest
        return (d :: ds, rest)
    | _ => none

/-- The assignments of an inline table that is not empty, up to its brace. -/
def assignments (depth : Nat) : Nat → Reader (List ((List String × String) × Document))
  | 0 => fun _ => none
  | bound + 1 => fun cs => do
    let (k, cs) ← key cs
    let (d, cs) ← value depth bound (skipBlank (← mark? '=' cs))
    match skipBlank cs with
    | '\x7d' :: rest => return ([(k, d)], rest)
    | ',' :: rest =>
      let (others, rest) ← assignments depth bound rest
      return ((k, d) :: others, rest)
    | _ => none

end

/-! ### Lines -/

/-- A header or an assignment. -/
def content : Reader Line := fun cs => do
  match cs with
  | '[' :: '[' :: rest =>
    let ((path, name), rest) ← key rest
    return (.item path name, ← mark? ']' (← mark? ']' rest))
  | '[' :: rest =>
    let ((path, name), rest) ← key rest
    return (.table path name, ← mark? ']' rest)
  | _ =>
    let ((path, name), rest) ← key cs
    let rest := skipBlank (← mark? '=' rest)
    let (d, rest) ← value maxDepth (2 * rest.length + 2) rest
    return (.assign path name d, rest)

/-- Passes over the rest of a line, which may hold a comment. -/
def endLine? (cs : List Char) : Option (List Char) :=
  let rest := match skipBlank cs with
    | '#' :: comment => comment.dropWhile isPlain
    | rest => rest
  if rest.isEmpty then some [] else newline? rest

/-- The lines of a document, apart from those that say nothing; `bound` limits their number. -/
def lines : Nat → List Char → Option (List Line)
  | 0, _ => none
  | bound + 1, cs =>
    match skipLines false cs with
    | [] => some []
    | cs => do
      let (line, rest) ← content cs
      let others ← lines bound (← endLine? rest)
      return line :: others

/-- A document under way: its entries so far, and the path of the last header. -/
structure Draft where
  entries : Entries := []
  current : List String := []

/-- Takes in a line. -/
def Draft.add (draft : Draft) : Line → Option Draft
  | .table path key => (draft.entries.openTable path key).map (⟨·, path ++ [key]⟩)
  | .item path key => (draft.entries.openItem path key).map (⟨·, path ++ [key]⟩)
  | .assign path key d =>
    (draft.entries.descend (Entries.insert key d path) draft.current).map fun entries => { draft with entries }

/-- The document that a text makes up. -/
def parse? (text : String) : Option Document := do
  let cs := text.toList
  let cs := if cs.head? = some '\uFEFF' then cs.tail else cs
  let lines ← lines (cs.length + 1) cs
  let draft ← lines.foldlM Draft.add {}
  return .table (Node.toEntries draft.entries)

end Millrace.Document.Toml
