import Millrace.Number.Digits
import Millrace.Number.Exact

/-!
# Decimal forms of floats

A `Decimal` is a list of digits with the power of ten of the first one.  `Exact.significant` rounds a float to a
number of significant digits, exactly and with halves to even; a `Layout` says how the digits are written:
positionally or with an exponent, and with which marks.
-/

namespace Millrace

/-- The number `d₀.d₁d₂… · 10 ^ exponent`. -/
structure Decimal where
  /-- The digits, the most significant first. -/
  digits : List Nat
  /-- The power of ten of the first digit. -/
  exponent : Int
  deriving Repr, DecidableEq

/-- The greatest `k` with `10 ^ k ≤ num / den`, for a positive quotient. -/
def decimalExponent (num den : Nat) : Int :=
  if den ≤ num then (Digits.count (num / den) : Int) - 1
  else -(Digits.count ((den - 1) / num) : Int)

/-- The quotient `num / den` counted in units of `10 ^ unit`, again as a quotient. -/
def inUnits (num den : Nat) (unit : Int) : Nat × Nat :=
  (num * Nat.pow 10 (-unit).toNat, den * Nat.pow 10 unit.toNat)

namespace Decimal

/-- The decimal `coefficient · 10 ^ unit`. -/
def ofUnits (coefficient : Nat) (unit : Int) : Decimal :=
  let ds := Digits.ofNat coefficient
  ⟨ds, unit + ds.length - 1⟩

/-- The decimal without trailing zeros; the first digit always stays. -/
def trim (d : Decimal) : Decimal :=
  match d.digits with
  | [] => d
  | first :: rest => { d with digits := first :: (rest.reverse.dropWhile (· == 0)).reverse }

end Decimal

/-- The magnitude rounded to `n` significant digits, a half going to the even neighbour.  Zero has `n` zeros. -/
def Exact.significant (x : Exact) (n : Nat) : Decimal :=
  if x.mantissa = 0 then ⟨List.replicate n 0, 0⟩
  else
    let (num, den) := x.ratio
    let unit := decimalExponent num den - (n - 1 : Nat)
    let (a, b) := inUnits num den unit
    let d := Decimal.ofUnits (roundQuotient a b) unit
    { d with digits := d.digits.take n }

/-! ### Layouts -/

/-- How the digits of a decimal are written. -/
structure Layout where
  /-- Exponents below this one are written with an exponent mark. -/
  leastPositional : Int
  /-- Exponents from this one on are written with an exponent mark. -/
  firstScientific : Int
  /-- Whether a positional whole number ends in `.0`. -/
  keepPoint : Bool
  /-- Whether an exponent of zero or more carries a plus sign. -/
  exponentPlus : Bool
  /-- How many digits an exponent has at least. -/
  exponentWidth : Nat
  /-- The texts of nan and of positive infinity. -/
  nan : String
  infinity : String

namespace Decimal

/-- A run of `n` zeros. -/
def zeros (n : Nat) : List Nat := List.replicate n 0

/-- Digits before and after the point. -/
def positionalParts (d : Decimal) : List Nat × List Nat :=
  if d.exponent < 0 then ([0], zeros (-d.exponent - 1).toNat ++ d.digits)
  else
    let whole := d.exponent.toNat + 1
    (d.digits.take whole ++ zeros (whole - d.digits.length), d.digits.drop whole)

/-- Digits with a point before the fraction; a fraction without digits takes no point. -/
def pointed (whole fraction : List Nat) : String :=
  if fraction.isEmpty then String.ofList (Digits.chars whole)
  else String.ofList (Digits.chars whole ++ '.' :: Digits.chars fraction)

/-- The digits with a point among them and no exponent. -/
def positional (d : Decimal) : String :=
  let (whole, fraction) := d.positionalParts
  pointed whole fraction

/-- One digit, a point, the other digits, and the exponent after an `e`. -/
def scientific (d : Decimal) (plus : Bool) (width : Nat) : String :=
  let magnitude := Digits.ofNat d.exponent.natAbs
  let padded := zeros (width - magnitude.length) ++ magnitude
  let sign := if d.exponent < 0 then "-" else if plus then "+" else ""
  pointed (d.digits.take 1) (d.digits.drop 1) ++ "e" ++ sign ++ String.ofList (Digits.chars padded)

/-- A decimal in a layout. -/
def write (layout : Layout) (d : Decimal) : String :=
  if d.exponent < layout.leastPositional || layout.firstScientific ≤ d.exponent then
    d.scientific layout.exponentPlus layout.exponentWidth
  else
    let (whole, fraction) := d.positionalParts
    if fraction.isEmpty && layout.keepPoint then pointed whole [0] else pointed whole fraction

end Decimal

/-- A float in a layout, its magnitude turned into digits by `digits`. -/
def Layout.write (layout : Layout) (digits : Exact → Decimal) (x : Float) : String :=
  match Exact.ofFloat? x with
  | some value => (if value.negative then "-" else "") ++ (digits value).write layout
  | none =>
    if x.isNaN then layout.nan
    else if Exact.signBit x then "-" ++ layout.infinity
    else layout.infinity

/-! ### The formats of reports -/

/-- The general format: exponents from `-4` up to the precision are written positionally, trailing zeros are
dropped, and an exponent has a sign and at least two digits. -/
def generalLayout (precision : Nat) (keepPoint : Bool) : Layout :=
  ⟨-4, precision, keepPoint, true, 2, "nan", "inf"⟩

/-- Writes a float with at most `precision` significant digits in the general format; a precision of zero counts
as one. -/
def generalText (x : Float) (precision : Nat) : String :=
  let precision := max precision 1
  { generalLayout precision false with nan := "NaN" }.write (fun v => (v.significant precision).trim) x

/-- How many significant digits a report shows of a float. -/
def reportDigits : Nat := 6

/-- A float as reports show it: six significant digits in the general format, a whole number keeping its `.0` so
that it differs from an integer. -/
def reportText (x : Float) : String :=
  (generalLayout reportDigits true).write (fun v => (v.significant reportDigits).trim) x

/-- Writes a float with exactly `n` significant digits and an exponent. -/
def scientificText (x : Float) (n : Nat) : String :=
  Layout.write ⟨0, 0, false, false, 1, "nan", "inf"⟩ (fun v => v.significant n) x

end Millrace
