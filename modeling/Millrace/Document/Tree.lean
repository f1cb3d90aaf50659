import Millrace.Number.Whole

/-!
# Documents

The tree that a text in one of the document formats stands for, and the values among such trees.
-/

namespace Millrace

inductive Document where
  | null
  | bool (b : Bool)
  | int (n : Int)
  | float (x : Double)
  | str (s : String)
  | list (items : List Document)
  /-- Entries in the order of the text. -/
  | table (entries : List (String × Document))
  /-- What a format can write but nothing can hold, such as a number that is too large.  It may be passed over. -/
  | unreadable

namespace Document

mutual

/-- The value that a document stands for: a list is a tuple, and only integers of 64 bits are values. -/
def toValue? : Document → Option Value
  | bool b => some (.bool b)
  | int n => (Whole.ofInt? n).map .int
  | float x => some (.float x)
  | str s => some (.str s)
  | list items => (toValues? items).map .tuple
  | null | table _ | unreadable => none

def toValues? : List Document → Option (List Value)
  | [] => some []
  | d :: rest => do
    let v ← toValue? d
    let vs ← toValues? rest
    return v :: vs

end

mutual

/-- Whether no part of a document is unreadable. -/
def isReadable : Document → Bool
  | unreadable => false
  | list items => areReadable items
  | table entries => haveReadable entries
  | null | bool _ | int _ | float _ | str _ => true

def areReadable : List Document → Bool
  | [] => true
  | d :: rest => isReadable d && areReadable rest

def haveReadable : List (String × Document) → Bool
  | [] => true
  | (_, d) :: rest => isReadable d && haveReadable rest

end

/-- The entries with a key. -/
def entriesOf (key : String) (entries : List (String × Document)) : List Document :=
  (entries.filter (·.1 == key)).map (·.2)

end Document
end Millrace
