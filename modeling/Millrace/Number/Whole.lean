import Millrace.Fault

/-!
# Integers of 64 bits

The integer operators give the exact result or fail: there is no wrapping.  Division rounds down, and a remainder
has the sign of the divisor.
-/

namespace Millrace.Whole

/-- The least and the greatest integer of 64 bits. -/
def least : Int := -9223372036854775808
def greatest : Int := 9223372036854775807

/-- The integer of 64 bits that is `n`. -/
def ofInt? (n : Int) : Option Int64 :=
  if least ≤ n ∧ n ≤ greatest then some (Int64.ofInt n) else none

/-- The result `n` of an operator. -/
def checked (n : Int) : RowResult Int64 :=
  match ofInt? n with
  | some m => .ok m
  | none => fault .integerOverflow

def add (a b : Int64) : RowResult Int64 := checked (a.toInt + b.toInt)

def sub (a b : Int64) : RowResult Int64 := checked (a.toInt - b.toInt)

def mul (a b : Int64) : RowResult Int64 := checked (a.toInt * b.toInt)

def neg (a : Int64) : RowResult Int64 := checked (-a.toInt)

def abs (a : Int64) : RowResult Int64 := checked a.toInt.natAbs

/-- The quotient rounded down. -/
def floorDiv (a b : Int64) : RowResult Int64 :=
  if b = 0 then fault .integerDivision else checked (a.toInt.fdiv b.toInt)

/-- The remainder with the sign of the divisor. -/
def mod (a b : Int64) : RowResult Int64 :=
  if b = 0 then fault .integerDivision else checked (a.toInt.fmod b.toInt)

/-- A power with a natural exponent.  A base beyond `±1` leaves the range before the exponent reaches 64. -/
def powNat (a : Int) (n : Nat) : RowResult Int64 :=
  if a.natAbs ≤ 1 then checked (if n = 0 then 1 else if n % 2 = 0 then a * a else a)
  else if 64 ≤ n then fault .integerOverflow
  else checked (a.pow n)

/-- A power with an exponent of zero or more. -/
def pow (a b : Int64) : RowResult Int64 :=
  if b < 0 then fault .negativeExponent else powNat a.toInt b.toInt.toNat

/-- The nearest float, of two the even one. -/
def toFloat (a : Int64) : Float :=
  let magnitude := a.toInt.natAbs.toUInt64.toFloat
  if a < 0 then -magnitude else magnitude

/-- How the nearest float is stored. -/
def toDouble (a : Int64) : Double := .ofFloat (toFloat a)

/-- The quotient as a float. -/
def trueDiv (a b : Int64) : RowResult Double :=
  if b = 0 then fault .trueDivision else .ok (toDouble a / toDouble b)

/-- A truth value as a number. -/
def ofBool (b : Bool) : Int64 := if b then 1 else 0

end Millrace.Whole
