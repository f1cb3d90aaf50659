import Millrace.Number.Digits
import Millrace.Number.Double

/-!
# Reading decimal numerals

The text of a float is an optional sign, then `inf`, `infinity` or `nan` in any case, or digits with an optional
point and exponent.  The value is the float nearest to the decimal.  An integer is an optional sign and digits.
-/

namespace Millrace.Numeral

/-- The digits in front of a text, and what follows them. -/
def digits (cs : List Char) : List Char × List Char := cs.span (·.isDigit)

/-- An optional sign, and what follows it. -/
def sign (cs : List Char) : Bool × List Char :=
  match cs with
  | '-' :: rest => (true, rest)
  | '+' :: rest => (false, rest)
  | _ => (false, cs)

/-- The integer that digits stand for. -/
def signedValue (negative : Bool) (ds : List Char) : Int :=
  if negative then -(Digits.value ds : Int) else Digits.value ds

/-- The float nearest to `mantissa · 10 ^ exponent`.  From `10 ^ 310` on that is infinity, and below `10 ^ -330`
it is zero, whatever the digits are. -/
def nearest (mantissa : Nat) (exponent : Int) : Float :=
  let size := exponent + Digits.count mantissa
  if mantissa = 0 || size < -330 then 0
  else if 310 < size then 1 / 0
  else if 0 ≤ exponent then Float.ofScientific mantissa false exponent.toNat
  else Float.ofScientific mantissa true (-exponent).toNat

/-- The float nearest to the decimal with these digits before and after the point. -/
def ofParts (whole fraction : List Char) (exponent : Int) : Float :=
  nearest (Digits.value (whole ++ fraction)) (exponent - fraction.length)

/-- The exponent that makes up the whole of `cs`, after its `e`. -/
def exponent? (cs : List Char) : Option Int :=
  let (negative, rest) := sign cs
  match digits rest with
  | ([], _) => none
  | (ds, []) => some (signedValue negative ds)
  | _ => none

/-- Digits around a point, and what follows them; there is at least one digit. -/
def mantissa? (cs : List Char) : Option (List Char × List Char × List Char) :=
  let (whole, rest) := digits cs
  let (fraction, rest) := match rest with
    | '.' :: more => digits more
    | _ => ([], rest)
  if whole.isEmpty && fraction.isEmpty then none else some (whole, fraction, rest)

/-- An unsigned decimal that makes up the whole of `cs`. -/
def unsigned? (cs : List Char) : Option Float := do
  let (whole, fraction, rest) ← mantissa? cs
  match rest with
  | [] => some (ofParts whole fraction 0)
  | e :: more =>
    if e = 'e' || e = 'E' then
      let exponent ← exponent? more
      some (ofParts whole fraction exponent)
    else none

/-- The float named by a word, in any case. -/
def word? (cs : List Char) : Option Float :=
  match String.ofList (cs.map Char.toLower) with
  | "inf" | "infinity" => some (Float.ofNat 1 / Float.ofNat 0)
  | "nan" => some (Float.ofNat 0 / Float.ofNat 0)
  | _ => none

/-- The float that a text denotes.  A sign in front of nan is that of its sign bit. -/
def float? (s : String) : Option Double :=
  let (negative, rest) := sign s.toList
  ((word? rest).or (unsigned? rest)).map fun x => if negative then -.ofFloat x else .ofFloat x

/-- The integer that a text denotes, however large. -/
def integer? (s : String) : Option Int :=
  let (negative, rest) := sign s.toList
  match digits rest with
  | ([], _) => none
  | (ds, []) => some (signedValue negative ds)
  | _ => none

end Millrace.Numeral
