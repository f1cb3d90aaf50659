import Millrace.Dataset.Basic
import Millrace.Text.Escaped
import Millrace.Value.Text

/-!
# Tables

Rows as a table of text, with a line of column names and a rule above them.  A column is as wide as the longest
text in it, where the length of a text is the number of its bytes; a line with fewer cells than there are columns
is filled up with empty ones.
-/

namespace Millrace
namespace Table

/-- Widths that leave room for the cells of a line as well. -/
def widen : List Nat → List String → List Nat
  | widths, [] => widths
  | [], cell :: rest => cell.utf8ByteSize :: widen [] rest
  | w :: widths, cell :: rest => max w cell.utf8ByteSize :: widen widths rest

/-- A text with spaces after it, so that it has at least `width` characters. -/
def pad (width : Nat) (s : String) : String := s ++ String.ofList (List.replicate (width - s.length) ' ')

/-- The cells of a line in columns of the given widths. -/
def cells : List Nat → List String → List String
  | [], _ => []
  | w :: widths, [] => pad w "" :: cells widths []
  | w :: widths, s :: rest => pad w s :: cells widths rest

/-- A line of a table. -/
def line (widths : List Nat) (texts : List String) : String :=
  "|" ++ String.join ((cells widths texts).map fun cell => " " ++ cell ++ " |") ++ "\n"

/-- The line below the column names. -/
def rule (widths : List Nat) : String :=
  "|" ++ String.join (widths.map fun w => String.ofList (List.replicate (w + 2) '-') ++ "|") ++ "\n"

/-- The names of columns that have none: their positions. -/
def positions (width : Nat) : List String := (List.range width).map fun i => "_" ++ Digits.text i

/-- A table of rows. -/
def render (columns : Option (List String)) (rows : List Row) : String :=
  let header := columns.getD (positions (rows.foldl (fun width row => max width row.length) 0))
  let lines := rows.map (·.map Value.repr)
  let widths := lines.foldl widen (header.map String.utf8ByteSize)
  line widths header ++ rule widths ++ String.join (lines.map (line widths))

end Table

namespace Dataset

/-- The first `n` rows that come out of all stages, as a table. -/
def table (d : Dataset) (session : Session) (n : Nat) : Except Failure (String × Dataset) := do
  let (rows, d) ← d.run session
  return (Table.render d.columns (rows.take n), d)

/-- A list of quoted texts. -/
def quotedList (texts : List String) : String := "[" ++ ", ".intercalate (texts.map Text.inMessage) ++ "]"

/-- The number of source rows, the column names and the stages of a dataset. -/
def summary (d : Dataset) : String :=
  let columns := match d.columns with
    | some names => "Some(" ++ quotedList names ++ ")"
    | none => "None"
  "DataSet \x7b rows: " ++ Digits.text d.source.length ++ ", columns: " ++ columns ++ ", stages: "
    ++ quotedList (d.stages.map Stage.name) ++ " \x7d"

end Dataset
end Millrace
