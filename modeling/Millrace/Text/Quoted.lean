/-!
# Quoted texts

A text inside a tuple is written between quotes, with backslashes, the quote itself and the three usual line
controls escaped.  Single quotes are preferred; a text that holds single quotes but no double ones takes double
quotes, so that nothing in it needs an escape.
-/

namespace Millrace.Text

namespace Quoted

/-- The quote chosen for a text. -/
def mark (cs : List Char) : Char :=
  if cs.contains '\'' && !cs.contains '"' then '"' else '\''

/-- One character between quotes `quote`. -/
def escape (quote c : Char) : List Char :=
  if c = '\\' then ['\\', '\\']
  else if c = '\n' then ['\\', 'n']
  else if c = '\r' then ['\\', 'r']
  else if c = '\t' then ['\\', 't']
  else if c = quote then ['\\', c]
  else [c]

/-- The characters of a text as they stand between the quotes. -/
def body (quote : Char) (cs : List Char) : List Char := cs.flatMap (escape quote)

/-- A text with its quotes. -/
def encode (cs : List Char) : List Char :=
  mark cs :: (body (mark cs) cs ++ [mark cs])

end Quoted

/-- A text in quotes. -/
def quoted (s : String) : String := String.ofList (Quoted.encode s.toList)

end Millrace.Text
