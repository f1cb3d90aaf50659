import Millrace.Number.Digits
import Millrace.Value

/-!
# Types and schemas

The type of a value, where a position may be unknown, and the schema of the rows of a partition: a type for every
column, or nothing at all when the rows have no width in common.
-/

namespace Millrace

inductive ValueType where
  | bool
  | int
  | float
  | str
  | tuple (items : List ValueType)
  /-- The type of a position that differs from row to row. -/
  | unknown

namespace ValueType

mutual

/-- Whether two types are the same. -/
def same : ValueType → ValueType → Bool
  | bool, bool | int, int | float, float | str, str | unknown, unknown => true
  | tuple as, tuple bs => sameAll as bs
  | _, _ => false

def sameAll : List ValueType → List ValueType → Bool
  | [], [] => true
  | a :: as, b :: bs => same a b && sameAll as bs
  | _, _ => false

end

mutual

theorem same_iff : (a b : ValueType) → (same a b = true ↔ a = b)
  | bool, b => by cases b <;> simp [same]
  | int, b => by cases b <;> simp [same]
  | float, b => by cases b <;> simp [same]
  | str, b => by cases b <;> simp [same]
  | unknown, b => by cases b <;> simp [same]
  | tuple as, b => by
    cases b with
    | tuple bs => simp [same, sameAll_iff as bs]
    | _ => simp [same]

theorem sameAll_iff : (as bs : List ValueType) → (sameAll as bs = true ↔ as = bs)
  | [], bs => by cases bs <;> simp [sameAll]
  | a :: as, bs => by
    cases bs with
    | nil => simp [sameAll]
    | cons b bs => simp [sameAll, same_iff a b, sameAll_iff as bs]

end

instance : DecidableEq ValueType := fun a b => decidable_of_iff _ (same_iff a b)

mutual

/-- Whether the type and all types inside it are known. -/
def isConcrete : ValueType → Bool
  | unknown => false
  | tuple items => areConcrete items
  | _ => true

def areConcrete : List ValueType → Bool
  | [] => true
  | t :: rest => t.isConcrete && areConcrete rest

end

/-- Whether values of the type take part in arithmetic. -/
def isNumeric : ValueType → Bool
  | bool | int | float => true
  | _ => false

mutual

/-- Whether a value has exactly this type; an unknown type accepts all values. -/
def accepts : ValueType → Value → Bool
  | unknown, _ => true
  | bool, .bool _ | int, .int _ | float, .float _ | str, .str _ => true
  | tuple types, .tuple items => acceptsAll types items
  | _, _ => false

/-- Whether the values have these types, one by one. -/
def acceptsAll : List ValueType → List Value → Bool
  | [], [] => true
  | t :: types, v :: values => t.accepts v && acceptsAll types values
  | _, _ => false

end

mutual

/-- The text of a type. -/
def text : ValueType → String
  | bool => "bool"
  | int => "i64"
  | float => "f64"
  | str => "str"
  | unknown => "?"
  | tuple items => "(" ++ textAll items ++ ")"

/-- The texts of several types, separated by commas. -/
def textAll : List ValueType → String
  | [] => ""
  | [t] => t.text
  | t :: rest => t.text ++ ", " ++ textAll rest

end
end ValueType

mutual

/-- The type of a value. -/
def Value.type : Value → ValueType
  | .bool _ => .bool
  | .int _ => .int
  | .float _ => .float
  | .str _ => .str
  | .tuple items => .tuple (Value.types items)

/-- The types of several values. -/
def Value.types : List Value → List ValueType
  | [] => []
  | v :: rest => v.type :: Value.types rest

end

/-- The shape of the rows of a partition. -/
inductive Schema where
  /-- No width is common to the rows, or there are none. -/
  | unspecialized
  | row (columns : List ValueType)
  deriving DecidableEq

namespace Schema

def columns? : Schema → Option (List ValueType)
  | unspecialized => none
  | row columns => some columns

/-- The number of columns. -/
def width? (s : Schema) : Option Nat := s.columns?.map List.length

/-- Whether every position is known, so that a fast path may be compiled. -/
def isSpecialized (s : Schema) : Bool := s.columns?.any ValueType.areConcrete

/-- Whether a row matches the schema column by column. -/
def conforms (s : Schema) (r : Row) : Bool := s.columns?.any (ValueType.acceptsAll · r)

/-- The text of a schema. -/
def text : Schema → String
  | unspecialized => "<unspecialized>"
  | row columns => "(" ++ ValueType.textAll columns ++ ")"

end Schema
end Millrace
