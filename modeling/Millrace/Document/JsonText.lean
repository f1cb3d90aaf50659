import Millrace.Document.Tree
import Millrace.Number.Shortest

/-!
# Writing JSON

A document as JSON text, on one line or with one item a line.
-/

namespace Millrace
namespace Document

/-- A character inside a JSON text. -/
def escapeInJson (c : Char) : String :=
  if c = '"' then "\\\""
  else if c = '\\' then "\\\\"
  else if c = '\x08' then "\\b"
  else if c = '\x0c' then "\\f"
  else if c = '\n' then "\\n"
  else if c = '\r' then "\\r"
  else if c = '\t' then "\\t"
  else if c.toNat < 0x20 then
    "\\u00" ++ String.ofList [Nat.digitChar (c.toNat / 16), Nat.digitChar (c.toNat % 16)]
  else c.toString

/-- A text in JSON quotes. -/
def quotedInJson (s : String) : String := "\"" ++ String.join (s.toList.map escapeInJson) ++ "\""

/-- A scalar document.  One that is unreadable has no text. -/
def scalarText : Document → String
  | null => "null"
  | bool true => "true"
  | bool false => "false"
  | int n => Digits.signed n
  | float x => jsonNumberText x.toFloat
  | str s => quotedInJson s
  | list _ | table _ | unreadable => ""

/-- Where line breaks go: none at all, or two spaces of indentation for every level. -/
inductive Lines where
  | one
  | indented (level : Nat)

namespace Lines

/-- The lines inside a list or table. -/
def deeper : Lines → Lines
  | one => one
  | indented level => indented (level + 1)

/-- The start of an item. -/
def newline : Lines → String
  | one => ""
  | indented level => "\n" ++ String.ofList (List.replicate (2 * level) ' ')

/-- What separates a key and its document. -/
def colon : Lines → String
  | one => ":"
  | indented _ => ": "

end Lines

mutual

/-- A document as JSON text. -/
def json (lines : Lines) : Document → String
  | list [] => "[]"
  | list items => "[" ++ lines.deeper.newline ++ jsonItems lines.deeper items ++ lines.newline ++ "]"
  | table [] => "\x7b\x7d"
  | table entries => "\x7b" ++ lines.deeper.newline ++ jsonEntries lines.deeper entries ++ lines.newline ++ "\x7d"
  | d => d.scalarText

def jsonItems (lines : Lines) : List Document → String
  | [] => ""
  | [d] => d.json lines
  | d :: rest => d.json lines ++ "," ++ lines.newline ++ jsonItems lines rest

def jsonEntries (lines : Lines) : List (String × Document) → String
  | [] => ""
  | [(key, d)] => quotedInJson key ++ lines.colon ++ d.json lines
  | (key, d) :: rest =>
    quotedInJson key ++ lines.colon ++ d.json lines ++ "," ++ lines.newline ++ jsonEntries lines rest

end

/-- A document as JSON text on one line. -/
def compact (d : Document) : String := d.json .one

/-- A document as JSON text with one item a line. -/
def pretty (d : Document) : String := d.json (.indented 0)

end Document

mutual

/-- A value as a document.  Floats that are no numbers of JSON become their names. -/
def Value.toDocument : Value → Document
  | .bool b => .bool b
  | .int n => .int n.toInt
  | .float x => if x.isFinite then .float x else .str (reportText x.toFloat)
  | .str s => .str s
  | .tuple items => .list (Value.toDocuments items)

def Value.toDocuments : List Value → List Document
  | [] => []
  | v :: rest => v.toDocument :: Value.toDocuments rest

end

end Millrace
