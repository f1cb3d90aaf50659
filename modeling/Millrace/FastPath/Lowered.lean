import Millrace.Lambda.Call
import Millrace.Schema

/-!
# Lowered expressions

A lowered expression computes on plain truth values, integers, floats and texts, because its type is known before
any row is.  Its tuples are taken apart beforehand: a lowered tuple is a list of lowered items.  A computation on
a row gives a result or one of a few reasons to give up.
-/

namespace Millrace.FastPath

/-- Why a fast path gives up on a row. -/
inductive Reason where
  | domain
  | zeroDivision
  | overflow
  | index
  | conversion
  /-- The row does not match the schema. -/
  | nonconforming
  deriving Repr, DecidableEq

def Reason.name : Reason → String
  | domain => "domain"
  | zeroDivision => "zero_division"
  | overflow => "overflow"
  | index => "index"
  | conversion => "conversion"
  | nonconforming => "nonconforming"

/-- The reason that goes with a kind of fault. -/
def Reason.ofKind : FaultKind → Reason
  | .domain => domain
  | .zeroDivision => zeroDivision
  | .overflow => overflow
  | .index => index
  | .conversion => conversion
  | .type | .arity => nonconforming

/-- A computation on the columns of a row. -/
abbrev Compute (α : Type) := Row → Except Reason α

/-- A result of the shared operations, with its fault reduced to a reason. -/
def reduced {α : Type} (r : RowResult α) : Except Reason α :=
  match r with
  | .ok x => .ok x
  | .error e => .error (.ofKind e.kind)

namespace Compute

/-- The computation that always gives `x`. -/
def const {α : Type} (x : α) : Compute α := fun _ => .ok x

def map {α β : Type} (f : α → β) (c : Compute α) : Compute β := fun row => f <$> c row

/-- Applies an operation that may fail. -/
def then₁ {α β : Type} (c : Compute α) (f : α → RowResult β) : Compute β := fun row => do
  let x ← c row
  reduced (f x)

/-- Applies an operation of two operands that may fail, the left operand first. -/
def then₂ {α β γ : Type} (c : Compute α) (d : Compute β) (f : α → β → RowResult γ) : Compute γ := fun row => do
  let x ← c row
  let y ← d row
  reduced (f x y)

/-- One of two computations, by a condition. -/
def select {α : Type} (cond : Compute Bool) (yes no : Compute α) : Compute α := fun row => do
  if ← cond row then yes row else no row

/-- The second operand if the first one's truth is `wanted`, and else the first. -/
def shortCircuit {α : Type} (truthy : α → Bool) (wanted : Bool) (c d : Compute α) : Compute α := fun row => do
  let x ← c row
  if truthy x == wanted then d row else return x

/-- Runs a check before a computation. -/
def guarded {α : Type} (check : Compute Unit) (c : Compute α) : Compute α := fun row => do
  check row
  c row

end Compute

/-! ### Scalars -/

/-- The types of values that are no tuples. -/
inductive Scalar where
  | bool
  | int
  | float
  | str
  deriving Repr, DecidableEq

namespace Scalar

/-- The plain values of a scalar type. -/
abbrev Carrier : Scalar → Type
  | bool => Bool
  | int => Int64
  | float => Double
  | str => String

def type : Scalar → ValueType
  | bool => .bool
  | int => .int
  | float => .float
  | str => .str

/-- A plain value as a value. -/
def toValue : (k : Scalar) → k.Carrier → Value
  | bool, b => .bool b
  | int, n => .int n
  | float, x => .float x
  | str, s => .str s

/-- The plain value of a value of this type. -/
def ofValue? : (k : Scalar) → Value → Option k.Carrier
  | bool, .bool b => some b
  | int, .int n => some n
  | float, .float x => some x
  | str, .str s => some s
  | _, _ => none

def truthy : (k : Scalar) → k.Carrier → Bool
  | bool, b => b
  | int, n => n != 0
  | float, x => x != 0
  | str, s => !s.isEmpty

/-- Whether a plain value is less than another. -/
def less : (k : Scalar) → k.Carrier → k.Carrier → Bool
  | bool, a, b => !a && b
  | int, a, b => a < b
  | float, a, b => a < b
  | str, a, b => a < b

end Scalar

/-! ### Lowered expressions -/

/-- What is known of a lowered expression apart from its computation. -/
structure Traits where
  /-- Whether it cannot fail on a row of the schema: it only reads columns and constants. -/
  infallible : Bool
  /-- Its value, if it is a constant. -/
  constant : Option Value

/-- The traits of a computation. -/
def Traits.computed : Traits := ⟨false, none⟩

inductive Lowered where
  | scalar (k : Scalar) (run : Compute k.Carrier) (traits : Traits)
  | tuple (items : List Lowered) (traits : Traits)

namespace Lowered

def traits : Lowered → Traits
  | scalar _ _ traits => traits
  | tuple _ traits => traits

def infallible (l : Lowered) : Bool := l.traits.infallible

mutual

def type : Lowered → ValueType
  | scalar k _ _ => k.type
  | tuple items _ => .tuple (types items)

def types : List Lowered → List ValueType
  | [] => []
  | l :: rest => l.type :: types rest

end

mutual

/-- The value on a row; items of tuples are computed from left to right. -/
def run : Lowered → Compute Value
  | scalar k c _ => c.map k.toValue
  | tuple items _ => Compute.map Value.tuple (runAll items)

def runAll : List Lowered → Compute (List Value)
  | [] => Compute.const []
  | l :: rest => fun row => do
    let v ← l.run row
    let vs ← runAll rest row
    return v :: vs

end

/-- Computes several expressions for their failures only. -/
def checkAll (items : List Lowered) : Compute Unit := (runAll items).map fun _ => ()

/-- A property of a tuple's shape.  Items that may fail are still computed. -/
def ofShape {α : Type} (items : List Lowered) (x : α) : Compute α :=
  if items.all infallible then Compute.const x else (checkAll items).map fun _ => x

/-- The integer constant that the expression is. -/
def constantInt? (l : Lowered) : Option Int64 :=
  match l.traits.constant with
  | some (.int n) => some n
  | some (.bool b) => some (Whole.ofBool b)
  | _ => none

/-- Whether the value counts as true. -/
def truthy : Lowered → Compute Bool
  | scalar k c _ => c.map k.truthy
  | tuple items _ => ofShape items !items.isEmpty

/-! ### Numbers -/

/-- A lowered number: truth values are read as integers. -/
inductive NumberView where
  | int (c : Compute Int64)
  | float (c : Compute Double)

def NumberView.toDouble : NumberView → Compute Double
  | int c => c.map Whole.toDouble
  | float c => c

def NumberView.toNumber : NumberView → Compute Number
  | int c => c.map Number.int
  | float c => c.map Number.float

def number? : Lowered → Option NumberView
  | scalar .bool c _ => some (.int (c.map Whole.ofBool))
  | scalar .int c _ => some (.int c)
  | scalar .float c _ => some (.float c)
  | _ => none

/-- A text. -/
def text? : Lowered → Option (Compute String)
  | scalar .str c _ => some c
  | _ => none

/-! ### Columns and constants -/

mutual

/-- A constant. -/
def ofConstant : Value → Lowered
  | .bool b => scalar .bool (Compute.const b) ⟨true, some (.bool b)⟩
  | .int n => scalar .int (Compute.const n) ⟨true, some (.int n)⟩
  | .float x => scalar .float (Compute.const x) ⟨true, some (.float x)⟩
  | .str s => scalar .str (Compute.const s) ⟨true, some (.str s)⟩
  | .tuple items => tuple (ofConstants items) ⟨true, some (.tuple items)⟩

def ofConstants : List Value → List Lowered
  | [] => []
  | v :: rest => ofConstant v :: ofConstants rest

end

/-- A value of a scalar type, read off the row. -/
def reader (k : Scalar) (read : Row → Option Value) : Lowered :=
  scalar k (fun row =>
    match (read row).bind k.ofValue? with
    | some x => .ok x
    | none => .error .nonconforming) ⟨true, none⟩

/-- The item at a position of a tuple that is read off the row. -/
def readItem (read : Row → Option Value) (i : Nat) (row : Row) : Option Value :=
  match read row with
  | some (.tuple items) => items[i]?
  | _ => none

mutual

/-- A value of a type, read off the row; a type with an unknown part has none. -/
def column? (read : Row → Option Value) : ValueType → Option Lowered
  | .bool => some (reader .bool read)
  | .int => some (reader .int read)
  | .float => some (reader .float read)
  | .str => some (reader .str read)
  | .tuple types => (columns? (readItem read) 0 types).map (tuple · ⟨true, none⟩)
  | .unknown => none

/-- The values of several types, read off consecutive positions. -/
def columns? (read : Nat → Row → Option Value) (i : Nat) : List ValueType → Option (List Lowered)
  | [] => some []
  | t :: rest => do
    let l ← column? (read i) t
    let others ← columns? read (i + 1) rest
    return l :: others

end

/-- The columns of a row of these types. -/
def ofColumns? (types : List ValueType) : Option (List Lowered) :=
  columns? (fun i row => row[i]?) 0 types

end Lowered
end Millrace.FastPath
