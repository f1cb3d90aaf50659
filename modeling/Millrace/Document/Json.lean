import Millrace.Document.Reader
import Millrace.Number.Numeral

/-!
# Reading JSON

The grammar is that of JSON without extensions.  A number without a point and an exponent is an integer as long as
it fits in 64 bits, with or without a sign; `-0` and larger ones are floats.  A float is its leading digits, as many
as fit in 64 bits, scaled by a power of ten.  A float that is too large, a text with half of a surrogate pair, a table
with such a text as a key, and a list or table in 127 others are unreadable.
-/

namespace Millrace.Document.Json

def isSpace (c : Char) : Bool := c = ' ' || c = '\t' || c = '\n' || c = '\r'

def skipSpace (cs : List Char) : List Char := cs.dropWhile isSpace

/-- Takes a character, and space in front of it. -/
def eat? (c : Char) (cs : List Char) : Option (List Char) :=
  match skipSpace cs with
  | d :: rest => if d = c then some rest else none
  | [] => none

/-! ### Numbers -/

/-- The greatest significand. -/
def maxSignificand : Nat := 18446744073709551615

/-- Appends digits to a significand as long as it stays in range, and counts those that it took. -/
def absorb (n : Nat) : List Nat → Nat × Nat
  | [] => (n, 0)
  | d :: rest =>
    if maxSignificand < n * 10 + d then (n, 0)
    else
      let (m, k) := absorb (n * 10 + d) rest
      (m, k + 1)

/-- Scales a float by a power of ten, in steps of at most `10 ^ 308`; `steps` limits their number. -/
def scale (x : Float) (exponent : Int) : Nat → Option Float
  | 0 => some 0
  | steps + 1 =>
    if exponent.natAbs ≤ 308 then
      let power := Float.ofScientific 1 false exponent.natAbs
      if 0 ≤ exponent then
        let y := x * power
        if y.isInf then none else some y
      else some (x / power)
    else if x == 0 then some x
    else if 0 ≤ exponent then none
    else scale (x / Float.ofScientific 1 false 308) (exponent + 308) steps

/-- The float with these digits before and after the point. -/
def float? (negative : Bool) (whole fraction : List Char) (exponent : Int) : Option Float :=
  let (n, taken) := absorb 0 (whole.filterMap Digits.ofChar?)
  let skipped := whole.length - taken
  let (n, places) := absorb n (fraction.filterMap Digits.ofChar?)
  (scale (Float.ofNat n) (exponent + skipped - places) 4).map fun x => if negative then -x else x

/-- An exponent after its `e`. -/
def exponent : Reader Int := fun cs =>
  let (negative, rest) := Numeral.sign cs
  match Numeral.digits rest with
  | ([], _) => none
  | (ds, rest) => some (Numeral.signedValue negative ds, rest)

/-- The document for a float, if there is one. -/
def ofFloat? (x : Option Float) : Document := x.elim .unreadable (.float <| .ofFloat ·)

/-- The number without a point and an exponent. -/
def wholeNumber (negative : Bool) (whole : List Char) : Document :=
  let n := Digits.value whole
  if negative then
    if n = 0 || 9223372036854775808 < n then ofFloat? (float? true whole [] 0) else .int (-n)
  else if n ≤ maxSignificand then .int n
  else ofFloat? (float? false whole [] 0)

/-- The exponent that may follow a number, and whether one does. -/
def exponentPart : Reader (Option Int) := fun cs =>
  match cs with
  | 'e' :: rest | 'E' :: rest => (exponent rest).map fun (e, rest) => (some e, rest)
  | _ => some (none, cs)

def number : Reader Document := fun cs => do
  let negative := cs.head? == some '-'
  let (whole, rest) := Numeral.digits (if negative then cs.tail else cs)
  if whole.isEmpty || (whole.head? == some '0' && 1 < whole.length) then none
  else
    match rest with
    | '.' :: more =>
      let (fraction, more) := Numeral.digits more
      if fraction.isEmpty then none
      else
        let (e, more) ← exponentPart more
        return (ofFloat? (float? negative whole fraction (e.getD 0)), more)
    | _ =>
      match ← exponentPart rest with
      | (none, _) => return (wholeNumber negative whole, rest)
      | (some e, more) => return (ofFloat? (float? negative whole [] e), more)

/-! ### Texts -/

/-- The character that an escape stands for, after its backslash, and how many characters the escape takes.  Half of a
surrogate pair stands for none. -/
def escaped (cs : List Char) : Option (Option Char × Nat) :=
  match cs with
  | '"' :: _ => some ('"', 1)
  | '\\' :: _ => some ('\\', 1)
  | '/' :: _ => some ('/', 1)
  | 'b' :: _ => some ('\x08', 1)
  | 'f' :: _ => some ('\x0c', 1)
  | 'n' :: _ => some ('\n', 1)
  | 'r' :: _ => some ('\r', 1)
  | 't' :: _ => some ('\t', 1)
  | 'u' :: a :: b :: c :: d :: rest => do
    let high ← hexValue? [a, b, c, d]
    if high < 0xD800 || 0xDFFF < high then return (Char.ofNat high, 5)
    else
      match rest with
      | '\\' :: 'u' :: e :: f :: g :: h :: _ =>
        let low ← hexValue? [e, f, g, h]
        if high < 0xDC00 && 0xDC00 ≤ low && low ≤ 0xDFFF then
          return (Char.ofNat (0x10000 + (high - 0xD800) * 0x400 + (low - 0xDC00)), 11)
        else return (none, 5)
      | _ => return (none, 5)
  | _ => none

/-- Puts a character in front of a text, if both are there. -/
def prepend (c : Option Char) (text : Option (List Char)) : Option (List Char) := do return (← c) :: (← text)

/-- The text up to the closing quote, if it is readable. -/
def quoted (cs : List Char) : Option (Option (List Char) × List Char) :=
  match cs with
  | [] => none
  | c :: rest =>
    if c = '"' then some (some [], rest)
    else if c = '\\' then
      match escaped rest with
      | none => none
      | some (e, n) => (quoted (rest.drop n)).map fun (text, rest) => (prepend e text, rest)
    else if c.toNat < 0x20 then none
    else (quoted rest).map fun (text, rest) => (prepend c text, rest)
termination_by cs.length

/-! ### Documents -/

/-- Takes a word. -/
def word (w : String) (d : Document) : Reader Document := fun cs =>
  if w.toList.isPrefixOf cs then some (d, cs.drop w.length) else none

/-- A key, if it is readable, and the colon after it. -/
def key : Reader (Option String) := fun cs => do
  let cs ← eat? '"' cs
  let (name, cs) ← quoted cs
  let cs ← eat? ':' cs
  return (name.map String.ofList, cs)

/-- The entry with a key, if that is readable. -/
def entry? : Option String × Document → Option (String × Document)
  | (key, d) => key.map fun key => (key, d)

/-- The table with these entries, if all of their keys are readable. -/
def table (entries : List (Option String × Document)) : Document :=
  (entries.mapM entry?).elim .unreadable .table

mutual

/-- A document, in which lists and tables that are more than `depth` deep are unreadable; `bound` limits the number of
steps. -/
def document (depth : Nat) : Nat → Reader Document
  | 0 => fun _ => none
  | bound + 1 => fun cs =>
    let within (d : Document) : Document := if depth = 0 then .unreadable else d
    match skipSpace cs with
    | 'n' :: rest => word "null" .null ('n' :: rest)
    | 't' :: rest => word "true" (.bool true) ('t' :: rest)
    | 'f' :: rest => word "false" (.bool false) ('f' :: rest)
    | '"' :: rest => (quoted rest).map fun (text, rest) => (text.elim .unreadable (.str ∘ String.ofList), rest)
    | '[' :: rest =>
      match eat? ']' rest with
      | some rest => some (within (.list []), rest)
      | none => (items (depth - 1) bound rest).map fun (ds, rest) => (within (.list ds), rest)
    | '\x7b' :: rest =>
      match eat? '\x7d' rest with
      | some rest => some (within (.table []), rest)
      | none => (entries (depth - 1) bound rest).map fun (es, rest) => (within (table es), rest)
    | rest => number rest

/-- The items of a list that is not empty, up to its bracket. -/
def items (depth : Nat) : Nat → Reader (List Document)
  | 0 => fun _ => none
  | bound + 1 => fun cs => do
    let (d, cs) ← document depth bound cs
    match eat? ',' cs with
    | some cs =>
      let (ds, cs) ← items depth bound cs
      return (d :: ds, cs)
    | none =>
      let cs ← eat? ']' cs
      return ([d], cs)

/-- The entries of a table that is not empty, up to its brace. -/
def entries (depth : Nat) : Nat → Reader (List (Option String × Document))
  | 0 => fun _ => none
  | bound + 1 => fun cs => do
    let (name, cs) ← key cs
    let (d, cs) ← document depth bound cs
    match eat? ',' cs with
    | some cs =>
      let (es, cs) ← entries depth bound cs
      return ((name, d) :: es, cs)
    | none =>
      let cs ← eat? '\x7d' cs
      return ([(name, d)], cs)

end

/-- The document that a text makes up. -/
def parse? (text : String) : Option Document :=
  let cs := text.toList
  match document 127 (2 * cs.length + 2) cs with
  | some (d, rest) => if (skipSpace rest).isEmpty then some d else none
  | none => none

end Millrace.Document.Json
