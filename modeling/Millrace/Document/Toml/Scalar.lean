import Millrace.Document.Reader
import Millrace.Number.Numeral

/-!
# Scalars of TOML

Texts, numbers, truth values and dates.  A text is written between quotes or between threefold quotes; only between
double quotes are there escapes, and only between threefold ones line breaks.
-/

namespace Millrace.Document.Toml

def isBlank (c : Char) : Bool := c = ' ' || c = '\t'

/-- Passes over blanks. -/
def skipBlank (cs : List Char) : List Char := cs.dropWhile isBlank

/-- Whether a character may stand for itself in a text or a comment: everything but the controls other than tab. -/
def isPlain (c : Char) : Bool := c = '\t' || (0x20 ≤ c.toNat && c.toNat ≠ 0x7F)

/-! ### Texts -/

/-- The ways to write a text. -/
structure Quotation where
  quote : Char
  /-- Whether the quotes are threefold. -/
  long : Bool

/-- Double quotes allow escapes. -/
def Quotation.escapes (q : Quotation) : Bool := q.quote = '"'

/-- The character that an escape stands for, after its backslash, and how many characters the escape takes. -/
def escaped (cs : List Char) : Option (Char × Nat) :=
  match cs with
  | '"' :: _ => some ('"', 1)
  | '\\' :: _ => some ('\\', 1)
  | 'b' :: _ => some ('\x08', 1)
  | 'f' :: _ => some ('\x0c', 1)
  | 'n' :: _ => some ('\n', 1)
  | 'r' :: _ => some ('\r', 1)
  | 't' :: _ => some ('\t', 1)
  | 'u' :: rest => (codePoint? 4 rest).map fun c => (c, 5)
  | 'U' :: rest => (codePoint? 8 rest).map fun c => (c, 9)
  | _ => none

/-- Passes over blanks and line breaks. -/
def skipBlankLines : List Char → List Char
  | [] => []
  | c :: rest =>
    if isBlank c || c = '\n' || (c = '\r' && rest.head? = some '\n') then skipBlankLines rest else c :: rest

/-- How many characters lie between a backslash at the end of a line and the next character that counts. -/
def continuation? (cs : List Char) : Option Nat :=
  (newline? (skipBlank cs)).map fun rest => cs.length - (skipBlankLines rest).length

/-- The text up to the closing quotes.  Up to two quotes may stand in front of threefold ones. -/
def textBody (q : Quotation) (cs : List Char) : Option (List Char × List Char) :=
  match cs with
  | [] => none
  | c :: rest =>
    if c = q.quote then
      if q.long then
        let more := (rest.takeWhile (· = c)).length
        if more < 2 then (textBody q rest).map fun (text, rest) => (c :: text, rest)
        else some (List.replicate (min (more - 2) 2) c, rest.drop (min more 4))
      else some ([], rest)
    else if c = '\\' && q.escapes then
      match (if q.long then continuation? rest else none), escaped rest with
      | some n, _ => textBody q (rest.drop n)
      | none, some (e, n) => (textBody q (rest.drop n)).map fun (text, rest) => (e :: text, rest)
      | none, none => none
    else if isPlain c then (textBody q rest).map fun (text, rest) => (c :: text, rest)
    else if q.long && c = '\n' then (textBody q rest).map fun (text, rest) => (c :: text, rest)
    else if q.long && c = '\r' && rest.head? = some '\n' then textBody q rest
    else none
termination_by cs.length

/-- A text between single quotation marks of either kind, after the opening one. -/
def shortText (quote : Char) : Reader String := Reader.map String.ofList (textBody ⟨quote, false⟩)

/-- A text between threefold quotes, after the opening ones; a line break right after them does not count. -/
def longText (quote : Char) : Reader String := fun cs =>
  Reader.map String.ofList (textBody ⟨quote, true⟩) ((newline? cs).getD cs)

/-- A text in any of the notations. -/
def quotedText : Reader String := fun cs =>
  match cs with
  | '"' :: '"' :: '"' :: rest => longText '"' rest
  | '\'' :: '\'' :: '\'' :: rest => longText '\'' rest
  | '"' :: rest => shortText '"' rest
  | '\'' :: rest => shortText '\'' rest
  | _ => none

/-! ### Numbers -/

/-- Digits without the underscores between them; an underscore has a digit on either side. -/
def ungroup? (isDigit : Char → Bool) : List Char → Option (List Char)
  | [] => none
  | [c] => if isDigit c then some [c] else none
  | c :: '_' :: rest => if isDigit c then (ungroup? isDigit rest).map (c :: ·) else none
  | c :: rest => if isDigit c then (ungroup? isDigit rest).map (c :: ·) else none

/-- Decimal digits that do not start with a zero, unless it is the only one. -/
def wholeDigits? (cs : List Char) : Option (List Char) :=
  (ungroup? Char.isDigit cs).filter fun ds => ds.head? ≠ some '0' || ds.length = 1

/-- An integer of 64 bits. -/
def integerOf? (n : Int) : Option Document := (Whole.ofInt? n).map fun _ => .int n

/-- The number that the digits of a base stand for. -/
def inBase? (base : Nat) (cs : List Char) : Option Document := do
  let ds ← ungroup? (fun c => (hexDigit? c).any (· < base)) cs
  let n : Nat := ds.foldl (fun n c => base * n + (hexDigit? c).getD 0) 0
  integerOf? n

/-- An exponent, after its `e`. -/
def exponent? (cs : List Char) : Option Int :=
  let (negative, rest) := Numeral.sign cs
  (ungroup? Char.isDigit rest).map (Numeral.signedValue negative)

/-- The float with these digits; one that is too large is refused if it is positive. -/
def floatOf? (negative : Bool) (whole fraction : List Char) (exponent : Int) : Option Document :=
  let x := Double.ofFloat (Numeral.ofParts whole fraction exponent)
  if negative then some (.float (-x)) else if x.isInf then none else some (.float x)

/-- A decimal number without its sign. -/
def decimal? (negative : Bool) (cs : List Char) : Option Document := do
  let (mantissa, rest) := cs.span fun c => c ≠ 'e' && c ≠ 'E'
  let (whole, fraction) := mantissa.span (· ≠ '.')
  let whole ← wholeDigits? whole
  if rest.isEmpty && fraction.isEmpty then integerOf? (Numeral.signedValue negative whole)
  else
    let fraction ← if fraction.isEmpty then some [] else ungroup? Char.isDigit fraction.tail
    let exponent ← if rest.isEmpty then some 0 else exponent? rest.tail
    floatOf? negative whole fraction exponent

/-- A number. -/
def number? (cs : List Char) : Option Document :=
  match cs with
  | '0' :: 'x' :: rest => inBase? 16 rest
  | '0' :: 'o' :: rest => inBase? 8 rest
  | '0' :: 'b' :: rest => inBase? 2 rest
  | _ =>
    let (negative, rest) := Numeral.sign cs
    match String.ofList rest with
    | "inf" => some (.float (if negative then -.infinity else .infinity))
    | "nan" => some (.float (if negative then -.nan else .nan))
    | _ => decimal? negative rest

/-! ### Dates and times -/

/-- The number of the first `n` characters, which are digits, and what follows them. -/
def fixedDigits? (n : Nat) (cs : List Char) : Option (Nat × List Char) :=
  let ds := cs.take n
  if ds.length = n && ds.all Char.isDigit then some (Digits.value ds, cs.drop n) else none

/-- Passes over a character. -/
def mark? (c : Char) : List Char → Option (List Char)
  | d :: rest => if d = c then some rest else none
  | [] => none

/-- How many days a month has. -/
def daysIn (year month : Nat) : Nat :=
  if month = 2 then if year % 4 = 0 && (year % 100 ≠ 0 || year % 400 = 0) then 29 else 28
  else if [4, 6, 9, 11].contains month then 30
  else 31

/-- Passes over a date. -/
def date? (cs : List Char) : Option (List Char) := do
  let (year, cs) ← fixedDigits? 4 cs
  let (month, cs) ← fixedDigits? 2 (← mark? '-' cs)
  let (day, cs) ← fixedDigits? 2 (← mark? '-' cs)
  if 1 ≤ month && month ≤ 12 && 1 ≤ day && day ≤ daysIn year month then return cs else none

/-- Passes over hours and minutes. -/
def hourMinute? (cs : List Char) : Option (List Char) := do
  let (hour, cs) ← fixedDigits? 2 cs
  let (minute, cs) ← fixedDigits? 2 (← mark? ':' cs)
  if hour ≤ 23 && minute ≤ 59 then return cs else none

/-- Passes over a time of day. -/
def time? (cs : List Char) : Option (List Char) := do
  let (second, cs) ← fixedDigits? 2 (← mark? ':' (← hourMinute? cs))
  if 60 < second then none
  else
    match cs with
    | '.' :: rest => if (Numeral.digits rest).1.isEmpty then none else return (Numeral.digits rest).2
    | _ => return cs

/-- Whether a text is an offset from universal time. -/
def isOffset (cs : List Char) : Bool :=
  match cs with
  | ['Z'] | ['z'] => true
  | '+' :: rest | '-' :: rest => hourMinute? rest = some []
  | _ => false

/-- Whether a text is a date, a time, or both. -/
def isMoment (cs : List Char) : Bool :=
  match date? cs with
  | none => time? cs = some []
  | some [] => true
  | some (c :: rest) =>
    (c = 'T' || c = 't' || c = ' ') && (time? rest).any fun rest => rest.isEmpty || isOffset rest

/-! ### All of them -/

/-- Whether a character may occur in a scalar that is not a text. -/
def isWordChar (c : Char) : Bool := c.isAlphanum || "_+-.:".toList.contains c

/-- The scalar that a word stands for.  Dates and times are no values; they become tables with one entry. -/
def word? (cs : List Char) : Option Document :=
  match String.ofList cs with
  | "true" => some (.bool true)
  | "false" => some (.bool false)
  | word => if isMoment cs then some (.table [("moment", .str word)]) else number? cs

/-- A scalar that is not a text.  A space may stand between a date and a time. -/
def word : Reader Document := fun cs =>
  let (first, rest) := cs.span isWordChar
  match rest with
  | ' ' :: c :: more =>
    if date? first = some [] && c.isDigit then
      let (second, rest) := (c :: more).span isWordChar
      (word? (first ++ ' ' :: second)).map fun d => (d, rest)
    else (word? first).map fun d => (d, rest)
  | _ => (word? first).map fun d => (d, rest)

end Millrace.Document.Toml
