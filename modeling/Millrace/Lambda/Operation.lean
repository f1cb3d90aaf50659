import Millrace.Number.Real

/-!
# The operators on values

What the operators of lambda bodies do.  Truth values count as the integers 0 and 1.  Arithmetic on two integers is
exact or fails; as soon as one operand is a float both are.  Texts and tuples are concatenated and repeated.
Equality is defined on all values; the orders on numbers, on texts and, item by item, on tuples.
-/

namespace Millrace

/-! ### Arithmetic -/

/-- An operator on integers. -/
def BinaryOp.onIntegers (op : BinaryOp) (a b : Int64) : RowResult Value :=
  match op with
  | add => Value.int <$> Whole.add a b
  | sub => Value.int <$> Whole.sub a b
  | mul => Value.int <$> Whole.mul a b
  | div => Value.float <$> Whole.trueDiv a b
  | floorDiv => Value.int <$> Whole.floorDiv a b
  | mod => Value.int <$> Whole.mod a b
  | pow =>
    if 0 ≤ b then Value.int <$> Whole.pow a b else Value.float <$> RealNumber.wholePower a b

/-- An operator on floats. -/
def BinaryOp.onFloats (op : BinaryOp) (a b : Double) : RowResult Double :=
  match op with
  | add => .ok (a + b)
  | sub => .ok (a - b)
  | mul => .ok (a * b)
  | div => RealNumber.div a b
  | floorDiv => RealNumber.floorDiv a b
  | mod => RealNumber.mod a b
  | pow => RealNumber.power a b

/-- An operator on numbers. -/
def BinaryOp.onNumbers (op : BinaryOp) : Number → Number → RowResult Value
  | .int a, .int b => op.onIntegers a b
  | a, b => Value.float <$> op.onFloats a.toDouble b.toDouble

/-! ### Repetition -/

/-- The greatest length, in bytes of a text or items of a tuple, that repetition may give. -/
def maxRepeatLength : Nat := 67108864

/-- How many copies of something of length `len` a count asks for; negative counts ask for none, and a length above
`maxRepeatLength` is refused. -/
def copies (len : Nat) (count : Int64) : RowResult Nat :=
  let n := count.toInt.toNat
  if maxRepeatLength < len * n then fault .repetitionTooLong
  else .ok (if len = 0 then 0 else n)

def repeatText (s : String) (count : Int64) : RowResult String := do
  let n ← copies s.utf8ByteSize count
  return n.repeat (· ++ s) ""

def repeatItems {α : Type} (items : List α) (count : Int64) : RowResult (List α) := do
  let n ← copies items.length count
  return (List.replicate n items).flatten

/-- The integer that a count is. -/
def Value.count? (v : Value) : Option Int64 :=
  match v.number? with
  | some (.int n) => some n
  | _ => none

/-! ### Operators -/

def UnaryOp.apply : UnaryOp → Value → RowResult Value
  | not, v => .ok (.bool !v.truthy)
  | neg, .bool b => .ok (.int (-Whole.ofBool b))
  | neg, .int n => Value.int <$> Whole.neg n
  | neg, .float x => .ok (.float (-x))
  | pos, .bool b => .ok (.int (Whole.ofBool b))
  | pos, .int n => .ok (.int n)
  | pos, .float x => .ok (.float x)
  | op, v => fault (.unaryOperand op v.tag)

/-- An operator on operands that are not both numbers. -/
def BinaryOp.onSequences (op : BinaryOp) (a b : Value) : RowResult Value :=
  match op, a, b with
  | add, .str x, .str y => .ok (.str (x ++ y))
  | add, .tuple xs, .tuple ys => .ok (.tuple (xs ++ ys))
  | mul, .str s, n | mul, n, .str s =>
    match n.count? with
    | some count => Value.str <$> repeatText s count
    | none => fault (.binaryOperands op a.tag b.tag)
  | mul, .tuple items, n | mul, n, .tuple items =>
    match n.count? with
    | some count => Value.tuple <$> repeatItems items count
    | none => fault (.binaryOperands op a.tag b.tag)
  | _, _, _ => fault (.binaryOperands op a.tag b.tag)

def BinaryOp.apply (op : BinaryOp) (a b : Value) : RowResult Value :=
  match a.number?, b.number? with
  | some x, some y => op.onNumbers x y
  | _, _ => op.onSequences a b

/-! ### Comparisons -/

mutual

/-- Equality of values: numbers as numbers, texts, and tuples item by item; values of different kinds differ. -/
def Value.equals : Value → Value → Bool
  | .str x, .str y => x == y
  | .tuple xs, .tuple ys => Value.equalsAll xs ys
  | a, b =>
    match a.number?, b.number? with
    | some x, some y => x.order y == some .eq
    | _, _ => false

def Value.equalsAll : List Value → List Value → Bool
  | [], [] => true
  | x :: xs, y :: ys => x.equals y && Value.equalsAll xs ys
  | _, _ => false

end

namespace CompareOp

/-- A comparison of two numbers; only `!=` holds of nan. -/
def onNumbers (op : CompareOp) (a b : Number) : Bool :=
  match a.order b with
  | some order => op.test order
  | none => op == .ne

mutual

/-- A comparison of two values.  Two tuples compare as their first items that differ, or else as their lengths. -/
def apply (op : CompareOp) : Value → Value → RowResult Bool
  | .str x, .str y => .ok (op.test (compare x y))
  | .tuple xs, .tuple ys => applyAll op xs ys
  | a, b =>
    match a.number?, b.number?, op with
    | some x, some y, op => .ok (op.onNumbers x y)
    | _, _, .eq => .ok false
    | _, _, .ne => .ok true
    | _, _, op => fault (.unordered op a.tag b.tag)

def applyAll (op : CompareOp) : List Value → List Value → RowResult Bool
  | x :: xs, y :: ys =>
    if x.equals y then applyAll op xs ys
    else
      match op with
      | .eq => .ok false
      | .ne => .ok true
      | op => apply op x y
  | xs, ys => .ok (op.test (compare xs.length ys.length))

end
end CompareOp

/-! ### Subscripts -/

/-- The position that an index stands for in a sequence; negative ones count from the end. -/
def positionIn (len : Nat) (i : Int64) : Option Nat :=
  let j := if i < 0 then i.toInt + len else i.toInt
  if 0 ≤ j ∧ j < len then some j.toNat else none

/-- The character of a text at an index. -/
def charAt (s : String) (i : Int64) : RowResult String :=
  match (positionIn s.length i).bind (s.toList[·]?) with
  | some c => .ok c.toString
  | none => fault .stringIndex

/-- The item of a tuple at an index. -/
def itemAt (items : List Value) (i : Int64) : RowResult Value :=
  match (positionIn items.length i).bind (items[·]?) with
  | some v => .ok v
  | none => fault .tupleIndex

/-- The item or character of `base` at the index `i`. -/
def Value.at (base i : Value) : RowResult Value :=
  match i.count? with
  | none => fault (.indexKind i.tag)
  | some n =>
    match base with
    | .tuple items => itemAt items n
    | .str s => Value.str <$> charAt s n
    | _ => fault (.notSubscriptable base.tag)

end Millrace
