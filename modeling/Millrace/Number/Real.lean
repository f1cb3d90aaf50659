import Millrace.Number.Exact
import Millrace.Number.Numeral
import Millrace.Number.Whole
import Millrace.Text.Blank

/-!
# Functions of real numbers

The functions of the `math` module on floats, with their domains.  A finite argument whose result would be
infinite is an overflow; an argument outside the domain is a domain fault; nan goes through.
-/

namespace Millrace

/-- Whether a float is a finite number without a fractional part. -/
def isWholeNumber (x : Double) : Bool := (Exact.ofFloat? x.toFloat).any Exact.isWhole

namespace RealNumber

def pi : Double := ⟨0x400921FB54442D18⟩

/-- What is left of `x` after taking away `y` as often as it fits, with the sign of `x`. -/
def remainder (x y : Double) : Double :=
  match Exact.ofFloat? x.toFloat, Exact.ofFloat? y.toFloat with
  | some a, some b => if b.mantissa = 0 then .nanOf [x, y] else .ofFloat (a.remainder b).toFloat
  | some _, none => if y.isNaN then .nanOf [x, y] else x
  | none, _ => .nanOf [x, y]

/-! ### Accurate elementary functions -/

/-- The logarithm of `1 + x`.  The rounding error of `1 + x` cancels in the quotient. -/
def logOnePlus (x : Double) : Double :=
  let u := 1 + x
  if u == 1 then x
  else if u.isInf then u
  else u.lift Float.log * (x / (u - 1))

/-- `exp x - 1`.  The rounding error of `exp x` cancels in the quotient. -/
def expMinusOne (x : Double) : Double :=
  let u := x.lift Float.exp
  if u == 1 then x
  else if u.isInf || u - 1 == -1 then u - 1
  else (u - 1) * (x / u.lift Float.log)

/-- The length of the hypotenuse; the sides are scaled by powers of two so that no square overflows or vanishes. -/
def hypotenuse (x y : Double) : Double :=
  let a := x.abs
  let b := y.abs
  let scale : Double := ⟨0x57F0000000000000⟩ -- 2 ^ 384
  if x.isInf || y.isInf then .infinity
  else if x.isNaN || y.isNaN then x + y
  else if 1e150 < a || 1e150 < b then root (a / scale / scale) (b / scale / scale) * scale * scale
  else if a < 1e-150 && b < 1e-150 then root (a * scale * scale) (b * scale * scale) / scale / scale
  else root a b
where
  root (a b : Double) : Double := (a * a + b * b).lift Float.sqrt

/-- The logarithm of two. -/
def logTwo : Double := ⟨0x3FE62E42FEFA39EF⟩

/-- Above this, the inverse hyperbolic sine and cosine are the logarithm of twice their argument as far as a float can
tell. -/
def large : Double := ⟨0x41B0000000000000⟩ -- 2 ^ 28

/-- The logarithm of `2 * x`, where the product itself may be too large for a float. -/
def logTwice (x : Double) : Double := x.lift Float.log + logTwo

/-- The inverse hyperbolic sine. -/
def arsinh (x : Double) : Double :=
  let a := x.abs
  let i := 1 / a
  (if large < a then logTwice a else logOnePlus (a + a / (hypotenuse 1 i + i))).withSign x

/-- The inverse hyperbolic cosine, by the distance to one, where it vanishes. -/
def arcosh (x : Double) : Double :=
  let t := x - 1
  if large < x then logTwice x else logOnePlus (t + (t * (t + 2)).lift Float.sqrt)

/-- The inverse hyperbolic tangent, by the magnitude, since the quotient is inexact near minus one. -/
def artanh (x : Double) : Double :=
  let a := x.abs
  (0.5 * logOnePlus (2 * a / (1 - a))).withSign x

/-! ### Domains -/

/-- The result `y` of a function at `x`, unless it overflowed. -/
def inRange (x y : Double) : RowResult Double :=
  if y.isInf && x.isFinite then fault .mathRange else .ok y

/-- Zero has the logarithm `-inf`; a negative number has none. -/
def logarithm (f : Double → Double) (x : Double) : RowResult Double :=
  if x.isNaN then .ok x
  else if x == 0 then .ok (-Double.infinity)
  else if x < 0 then fault .mathDomain
  else .ok (f x)

def log (x : Double) : RowResult Double := logarithm (.lift Float.log) x

def logBase (x base : Double) : RowResult Double :=
  if base ≤ 0 then fault .mathDomain
  else do
    let num ← log x
    let den ← log base
    if den == 0 then fault .floatDivision else .ok (num / den)

def log1p (x : Double) : RowResult Double :=
  if x.isNaN then .ok x
  else if x == -1 then .ok (-Double.infinity)
  else if x < -1 then fault .mathDomain
  else .ok (logOnePlus x)

def sqrt (x : Double) : RowResult Double :=
  if x < 0 then fault .mathDomain else .ok (x.lift Float.sqrt)

/-- The power, where zero has no negative powers and a negative number only whole ones. -/
def pow (x y : Double) : RowResult Double :=
  let finite := x.isFinite && y.isFinite
  if finite && x == 0 && y < 0 then fault .mathDomain
  else if finite && x < 0 && !isWholeNumber y then fault .mathDomain
  else
    let z := Double.lift₂ Float.pow x y
    if z.isInf && finite then fault .mathRange else .ok z

/-- A function without a value at infinity. -/
def periodic (f : Double → Double) (x : Double) : RowResult Double :=
  if x.isInf then fault .mathDomain else .ok (f x)

/-- A function on the numbers from `-1` to `1`. -/
def onUnit (f : Double → Double) (x : Double) : RowResult Double :=
  if 1 < x.abs then fault .mathDomain else .ok (f x)

def acosh (x : Double) : RowResult Double :=
  if x < 1 then fault .mathDomain else .ok (arcosh x)

def atanh (x : Double) : RowResult Double :=
  if 1 ≤ x.abs then fault .mathDomain else .ok (artanh x)

def hypot (x y : Double) : RowResult Double :=
  let z := hypotenuse x y
  if z.isInf && x.isFinite && y.isFinite then fault .mathRange else .ok z

def fmod (x y : Double) : RowResult Double :=
  if y == 0 || x.isInf then
    if x.isNaN || y.isNaN then .ok .nan else fault .mathDomain
  else .ok (remainder x y)

/-! ### Rounding to an integer -/

/-- Rounds a finite float to an integer of 64 bits by `f`. -/
def toInteger (f : Exact → Int) (x : Double) : RowResult Int64 :=
  match Exact.ofFloat? x.toFloat with
  | none => fault (if x.isNaN then .nanInteger else .infiniteInteger)
  | some value =>
    match Whole.ofInt? (f value) with
    | some n => .ok n
    | none => fault .integerRange

/-- Drops the fractional part. -/
def truncate (x : Double) : RowResult Int64 := toInteger Exact.trunc x

/-! ### Operators -/

def div (a b : Double) : RowResult Double :=
  if b == 0 then fault .floatDivision else .ok (a / b)

/-- The quotient rounded down, and the remainder with the sign of the divisor. -/
def divMod (a b : Double) : RowResult (Double × Double) :=
  if b == 0 then fault .floatDivmod
  else
    let m := remainder a b
    let q := (a - m) / b
    let adjust := m != 0 && decide (b < 0) != decide (m < 0)
    let q := if adjust then q - 1 else q
    let m := if adjust then m + b else if m != 0 then m else Double.withSign 0 b
    let q :=
      if q != 0 then
        let whole := q.lift Float.floor
        if 0.5 < q - whole then whole + 1 else whole
      else Double.withSign 0 (a / b)
    .ok (q, m)

def floorDiv (a b : Double) : RowResult Double := do
  let (q, _) ← divMod a b
  return q

def mod (a b : Double) : RowResult Double := do
  let (_, m) ← divMod a b
  return m

/-- The power operator: zero to a finite negative power is a division by zero. -/
def power (a b : Double) : RowResult Double :=
  if a == 0 && b < 0 && b.isFinite then fault .zeroToNegativePower else pow a b

/-- The power of an integer with a negative exponent. -/
def wholePower (a b : Int64) : RowResult Double :=
  if a = 0 then fault .zeroToNegativePower else power (Whole.toDouble a) (Whole.toDouble b)

/-! ### Conversions from text -/

/-- The integer in a text, white space around it passed over. -/
def readInteger (s : String) : RowResult Int64 :=
  match (Numeral.integer? (Text.trim s)).bind Whole.ofInt? with
  | some n => .ok n
  | none => fault (.integerText s)

/-- The float in a text, white space around it passed over. -/
def readFloat (s : String) : RowResult Double :=
  match Numeral.float? (Text.trim s) with
  | some x => .ok x
  | none => fault (.floatText s)

end RealNumber

/-! ### The functions behind the builtins -/

/-- The function of one real number. -/
def RealFunction.apply : RealFunction → Double → RowResult Double
  | log1p, x => RealNumber.log1p x
  | log2, x => RealNumber.logarithm (.lift Float.log2) x
  | log10, x => RealNumber.logarithm (.lift Float.log10) x
  | exp, x => RealNumber.inRange x (x.lift Float.exp)
  | expm1, x => RealNumber.inRange x (RealNumber.expMinusOne x)
  | sqrt, x => RealNumber.sqrt x
  | sin, x => RealNumber.periodic (.lift Float.sin) x
  | cos, x => RealNumber.periodic (.lift Float.cos) x
  | tan, x => RealNumber.periodic (.lift Float.tan) x
  | asin, x => RealNumber.onUnit (.lift Float.asin) x
  | acos, x => RealNumber.onUnit (.lift Float.acos) x
  | atan, x => .ok (x.lift Float.atan)
  | sinh, x => RealNumber.inRange x (x.lift Float.sinh)
  | cosh, x => RealNumber.inRange x (x.lift Float.cosh)
  | tanh, x => .ok (x.lift Float.tanh)
  | asinh, x => .ok (RealNumber.arsinh x)
  | acosh, x => RealNumber.acosh x
  | atanh, x => RealNumber.atanh x
  | radians, x => .ok (x * (RealNumber.pi / 180))
  | degrees, x => .ok (x * (180 / RealNumber.pi))
  | fabs, x => .ok (x.abs)

/-- The function of two real numbers. -/
def PairFunction.apply : PairFunction → Double → Double → RowResult Double
  | pow, x, y => RealNumber.pow x y
  | atan2, y, x => .ok (.lift₂ Float.atan2 y x)
  | hypot, x, y => RealNumber.hypot x y
  | copysign, x, y => .ok (x.withSign y)
  | fmod, x, y => RealNumber.fmod x y

def Rounding.apply : Rounding → Double → RowResult Int64
  | floor, x => RealNumber.toInteger Exact.floor x
  | ceil, x => RealNumber.toInteger Exact.ceil x
  | trunc, x => RealNumber.truncate x
  | round, x => RealNumber.toInteger Exact.round x

def RealTest.apply : RealTest → Double → Bool
  | isnan, x => x.isNaN
  | isinf, x => x.isInf
  | isfinite, x => x.isFinite

/-! ### Numbers of both kinds -/

/-- An integer or a float. -/
inductive Number where
  | int (n : Int64)
  | float (x : Double)

namespace Number

/-- The float that a number is compared with floats as. -/
def toFloat : Number → Float
  | .int n => Whole.toFloat n
  | .float x => x.toFloat

/-- The float that a number is computed with floats as. -/
def toDouble : Number → Double
  | .int n => Whole.toDouble n
  | .float x => x

/-- How two numbers compare; nan compares with nothing.  Integers compare exactly, and as soon as one side is a
float both are compared as floats. -/
def order : Number → Number → Option Ordering
  | .int a, .int b => some (compare a.toInt b.toInt)
  | a, b =>
    let x := a.toFloat
    let y := b.toFloat
    if x < y then some .lt
    else if x == y then some .eq
    else if y < x then some .gt
    else none

end Number

/-- The number that a truth value, an integer or a float stands for. -/
def Value.number? : Value → Option Number
  | .bool b => some (.int (Whole.ofBool b))
  | .int n => some (.int n)
  | .float x => some (.float x)
  | _ => none

end Millrace
