import Millrace.Number.Double

/-!
# Values and rows

The values that flow through a pipeline: truth values, 64-bit integers, floats, texts and tuples.  There are three
ways to compare them.  Two values are the same (`bitEq`, which is equality: `bitEq_iff`) when they have the same
shape and the same bits, so nan is itself but not its negative, and `0.0` is not `-0.0`; they have the same structure
(`sameStructure`) when floats are compared as numbers; and the language of lambdas has an equality of its own.
-/

namespace Millrace

/-- A value of a pipeline. -/
inductive Value where
  | bool (b : Bool)
  | int (n : Int64)
  | float (x : Double)
  | str (s : String)
  | tuple (items : List Value)

/-- The kinds of values, as messages name them. -/
inductive Tag where
  | bool
  | int
  | float
  | str
  | tuple
  deriving Repr, DecidableEq

/-- The name of a kind in messages. -/
def Tag.name : Tag → String
  | .bool => "bool"
  | .int => "int"
  | .float => "float"
  | .str => "str"
  | .tuple => "tuple"

namespace Value

def tag : Value → Tag
  | .bool _ => .bool
  | .int _ => .int
  | .float _ => .float
  | .str _ => .str
  | .tuple _ => .tuple

/-- A value counts as false when it is `False`, a zero, or empty. -/
def truthy : Value → Bool
  | .bool b => b
  | .int n => n != 0
  | .float x => x != 0
  | .str s => !s.isEmpty
  | .tuple items => !items.isEmpty

/-! ### Equality -/

mutual

/-- Whether two values have the same shape and the same bits. -/
def bitEq : Value → Value → Bool
  | .bool a, .bool b => a == b
  | .int a, .int b => a == b
  | .float a, .float b => a.bits == b.bits
  | .str a, .str b => a == b
  | .tuple as, .tuple bs => bitEqAll as bs
  | _, _ => false

/-- Whether two lists have the same length and the same values. -/
def bitEqAll : List Value → List Value → Bool
  | [], [] => true
  | a :: as, b :: bs => bitEq a b && bitEqAll as bs
  | _, _ => false

end

mutual

/-- Whether two values have the same shape, the same integers and texts, and floats equal as numbers. -/
def sameStructure : Value → Value → Bool
  | .bool a, .bool b => a == b
  | .int a, .int b => a == b
  | .float a, .float b => a == b
  | .str a, .str b => a == b
  | .tuple as, .tuple bs => sameStructureAll as bs
  | _, _ => false

/-- Whether two lists have the same length and pairwise the same structure. -/
def sameStructureAll : List Value → List Value → Bool
  | [], [] => true
  | a :: as, b :: bs => sameStructure a b && sameStructureAll as bs
  | _, _ => false

end

mutual

/-- Having the same bits is being the same value. -/
theorem bitEq_iff : (v w : Value) → (bitEq v w = true ↔ v = w)
  | .bool _, w => by cases w <;> simp [bitEq]
  | .int _, w => by cases w <;> simp [bitEq]
  | .float _, w => by cases w <;> simp [bitEq, Double.ext_iff]
  | .str _, w => by cases w <;> simp [bitEq]
  | .tuple as, w => by
    cases w with
    | tuple bs => simp [bitEq, bitEqAll_iff as bs]
    | _ => simp [bitEq]

theorem bitEqAll_iff : (vs ws : List Value) → (bitEqAll vs ws = true ↔ vs = ws)
  | [], ws => by cases ws <;> simp [bitEqAll]
  | v :: vs, ws => by
    cases ws with
    | nil => simp [bitEqAll]
    | cons w ws => simp [bitEqAll, bitEq_iff v w, bitEqAll_iff vs ws]

end

instance : DecidableEq Value := fun v w => decidable_of_iff _ (bitEq_iff v w)

/-! ### Views -/

def asFloat? : Value → Option Double
  | .float x => some x
  | _ => none

def asInt? : Value → Option Int64
  | .int n => some n
  | _ => none

def asText? : Value → Option String
  | .str s => some s
  | _ => none

end Value

/-! ### Rows -/

/-- The column values of one row. -/
abbrev Row := List Value

namespace Row

/-- A tuple is a row of its items; any other value is a row of one column. -/
def ofValue : Value → Row
  | .tuple items => items
  | v => [v]

/-- A single column stands for itself; any other row becomes a tuple. -/
def toValue : Row → Value
  | [v] => v
  | columns => .tuple columns

end Row
end Millrace
