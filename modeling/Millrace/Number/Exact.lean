/-!
# The exact value of a finite float

A finite `Float` is `± mantissa · 2 ^ exponent`.  `Exact.ofFloat?` reads the three parts off the bit pattern;
everything that must be exact (rounding to an integer, remainders, decimal digits) is integer arithmetic on them.
-/

namespace Millrace

/-- The number `± mantissa · 2 ^ exponent`. -/
structure Exact where
  /-- Whether the sign bit is set. -/
  negative : Bool
  mantissa : Nat
  exponent : Int
  deriving Repr, DecidableEq

/-- The whole number next to `num / den`, a half going to the even neighbour. -/
def roundQuotient (num den : Nat) : Nat :=
  let q := num / den
  let r := num % den
  if 2 * r < den then q
  else if den < 2 * r then q + 1
  else q + q % 2

namespace Exact

/-- The number `2 ^ 52` of fractions between two powers of two. -/
def fractions : Nat := 4503599627370496

/-- The weight `2 ^ 63` of the sign bit. -/
def signWeight : Nat := 9223372036854775808

/-- The sign bit of a float. -/
def signBit (x : Float) : Bool := signWeight ≤ x.toBits.toNat

/-- The value of a float; infinities and nan have none. -/
def ofFloat? (x : Float) : Option Exact :=
  let bits := x.toBits.toNat
  let biased := bits / fractions % 2048
  let fraction := bits % fractions
  if biased = 2047 then none
  else if biased = 0 then some ⟨signBit x, fraction, -1074⟩
  else some ⟨signBit x, fractions + fraction, Int.ofNat biased - 1075⟩

/-- The magnitude as a quotient of two naturals, the second a power of two. -/
def ratio (x : Exact) : Nat × Nat :=
  (x.mantissa * Nat.pow 2 x.exponent.toNat, Nat.pow 2 (-x.exponent).toNat)

/-- The numerator of the value over the second part of `ratio`. -/
def numerator (x : Exact) : Int := if x.negative then -(x.ratio.1 : Int) else x.ratio.1

/-! ### Rounding to an integer -/

/-- The largest integer not above the value. -/
def floor (x : Exact) : Int :=
  x.numerator / x.ratio.2

/-- The smallest integer not below the value. -/
def ceil (x : Exact) : Int :=
  -(-x.numerator / x.ratio.2)

/-- The value without its fractional part. -/
def trunc (x : Exact) : Int :=
  let n : Int := x.ratio.1 / x.ratio.2
  if x.negative then -n else n

/-- The nearest integer, a half going to the even neighbour. -/
def round (x : Exact) : Int :=
  let n : Int := roundQuotient x.ratio.1 x.ratio.2
  if x.negative then -n else n

/-- Whether the value has no fractional part. -/
def isWhole (x : Exact) : Bool := x.ratio.1 % x.ratio.2 = 0

/-! ### Remainders -/

/-- The float of magnitude `mantissa · 2 ^ exponent`, for a mantissa and exponent that a float can hold. -/
def toFloat (x : Exact) : Float :=
  let magnitude :=
    if 0 ≤ x.exponent then Float.ofNat (x.mantissa * Nat.pow 2 x.exponent.toNat)
    else if -1000 ≤ x.exponent then Float.ofNat x.mantissa / Float.ofNat (Nat.pow 2 (-x.exponent).toNat)
    else Float.ofNat x.mantissa / Float.ofNat (Nat.pow 2 1000) / Float.ofNat (Nat.pow 2 (-x.exponent - 1000).toNat)
  if x.negative then -magnitude else magnitude

/-- What is left of `x` after taking away `y` as often as it fits: the sign is that of `x`, and the result is a
multiple of the finer of the two scales, so it is exact. -/
def remainder (x y : Exact) : Exact :=
  let scale := min x.exponent y.exponent
  let a := x.mantissa * Nat.pow 2 (x.exponent - scale).toNat
  let b := y.mantissa * Nat.pow 2 (y.exponent - scale).toNat
  ⟨x.negative, a % b, scale⟩

end Exact
end Millrace
