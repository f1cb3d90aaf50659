import Millrace.Document.Reader
import Millrace.Number.Exact
import Millrace.Number.Numeral
import Millrace.Text.Name

/-!
# Scalars of HCL

Space, names, texts, numbers and truth values.  A number with an integral value is an integer, however it is written,
as long as it fits in 64 bits.
-/

namespace Millrace.Document.Hcl

/-! ### Space -/

def isBlank (c : Char) : Bool := c = ' ' || c = '\t'

/-- Whether a character is a blank or part of a line break. -/
def isSpace (c : Char) : Bool := isBlank c || c = '\n' || c = '\r'

/-- Passes over a comment that ends with its line.  A carriage return in it has to be part of the line break. -/
def lineComment? (cs : List Char) : Option (List Char) :=
  match cs with
  | '#' :: rest | '/' :: '/' :: rest =>
    let rest := rest.dropWhile fun c => c ≠ '\n' && c ≠ '\r'
    if rest.isEmpty || (newline? rest).isSome then some rest else none
  | _ => none

/-- Passes over the rest of a comment in slashes and stars. -/
def closeComment? : List Char → Option (List Char)
  | [] => none
  | '*' :: '/' :: rest => some rest
  | _ :: rest => closeComment? rest

/-- Passes over a comment that has an end of its own. -/
def closedComment? (cs : List Char) : Option (List Char) :=
  match cs with
  | '/' :: '*' :: rest => closeComment? rest
  | _ => none

/-- Passes over the characters of a class and over comments. -/
def skip (isSkipped : Char → Bool) (comment? : List Char → Option (List Char)) (cs : List Char) : List Char :=
  match comment? (cs.dropWhile isSkipped) with
  | some rest => if rest.length < cs.length then skip isSkipped comment? rest else rest
  | none => cs.dropWhile isSkipped
termination_by cs.length

/-- Passes over blanks and comments within a line. -/
def skipBlank (cs : List Char) : List Char := skip isBlank closedComment? cs

/-- Passes over blanks, line breaks and comments. -/
def skipLines (cs : List Char) : List Char := skip isSpace (fun cs => lineComment? cs <|> closedComment? cs) cs

/-- Passes over the rest of a line, which may hold a comment. -/
def endLine? (cs : List Char) : Option (List Char) :=
  let rest := skipBlank cs
  let rest := (lineComment? rest).getD rest
  if rest.isEmpty then some [] else newline? rest

/-! ### Names -/

/-- Whether a character may occur in a name after the first one. -/
def isNameChar (c : Char) : Bool := c = '-' || Text.isNamePart c

/-- A name, which does not start with a digit or a dash. -/
def name : Reader String := fun cs =>
  match cs with
  | [] => none
  | c :: rest =>
    if c = '_' || Text.isNameStart c then
      let (more, rest) := rest.span isNameChar
      some (String.ofList (c :: more), rest)
    else none

/-! ### Texts

A text is written between quotes, where an escape that stands for nothing is passed over: the backslash and one
character.  Such an escape ends an element of the text, and each element has to start with something else.
-/

/-- The character that an escape stands for, after its backslash, and how many characters the escape takes. -/
def escaped (cs : List Char) : Option (Char × Nat) :=
  match cs with
  | '"' :: _ => some ('"', 1)
  | '\\' :: _ => some ('\\', 1)
  | '/' :: _ => some ('/', 1)
  | 'b' :: _ => some ('\x08', 1)
  | 'f' :: _ => some ('\x0c', 1)
  | 'n' :: _ => some ('\n', 1)
  | 'r' :: _ => some ('\r', 1)
  | 't' :: _ => some ('\t', 1)
  | 'u' :: rest => (codePoint? 4 rest).map fun c => (c, 5)
  | 'U' :: rest => (codePoint? 8 rest).map fun c => (c, 9)
  | _ => none

/-- A piece of a text. -/
inductive Fragment where
  | char (c : Char)
  /-- A mark before a brace that is written twice, so that it does not open a template. -/
  | mark (c : Char)
  /-- An escape that stands for nothing. -/
  | gap

def Fragment.isGap : Fragment → Bool
  | gap => true
  | char _ | mark _ => false

/-- The characters of a fragment, where a mark counts once. -/
def Fragment.chars : Fragment → List Char
  | char c => [c]
  | mark c => [c, '\x7b']
  | gap => []

/-- The characters of a fragment, where a mark counts twice. -/
def Fragment.written : Fragment → List Char
  | mark c => [c, c, '\x7b']
  | f => f.chars

/-- The fragments up to the closing quote.  A mark before a brace opens a template, which is refused. -/
def fragments (cs : List Char) : Option (List Fragment × List Char) :=
  match cs with
  | [] => none
  | '"' :: rest => some ([], rest)
  | '\\' :: rest =>
    match escaped rest with
    | some (c, n) => (fragments (rest.drop n)).map fun (fs, rest) => (.char c :: fs, rest)
    | none => (fragments rest.tail).map fun (fs, rest) => (.gap :: fs, rest)
  | '$' :: '$' :: '\x7b' :: rest => (fragments rest).map fun (fs, rest) => (.mark '$' :: fs, rest)
  | '%' :: '%' :: '\x7b' :: rest => (fragments rest).map fun (fs, rest) => (.mark '%' :: fs, rest)
  | '$' :: '\x7b' :: _ | '%' :: '\x7b' :: _ => none
  | c :: rest => (fragments rest).map fun (fs, rest) => (.char c :: fs, rest)
termination_by cs.length

/-- The elements that fragments make up. -/
def elements? (fs : List Fragment) : Option (List (List Fragment)) :=
  let parts := fs.splitOnP Fragment.isGap
  if parts.dropLast.any List.isEmpty then none else some (parts.filter fun part => !part.isEmpty)

/-- A text of one element at most, after its opening quote. -/
def label : Reader String := fun cs => do
  let (fs, rest) ← fragments cs
  let elements ← elements? fs
  if elements.length ≤ 1 then return (String.ofList (elements.flatten.flatMap Fragment.chars), rest) else none

/-- A text, after its opening quote.  In a text of several elements a mark that is written twice stays so. -/
def text : Reader String := fun cs => do
  let (fs, rest) ← fragments cs
  let elements ← elements? fs
  let chars := if elements.length ≤ 1 then Fragment.chars else Fragment.written
  return (String.ofList (elements.flatten.flatMap chars), rest)

/-! ### Numbers -/

/-- The greatest integer without a sign. -/
def greatest : Nat := 18446744073709551615

/-- The greatest number of which the negative is an integer. -/
def greatestNegated : Nat := 9223372036854775808

/-- A fraction, with its point. -/
def fraction (cs : List Char) : List Char × List Char :=
  match cs with
  | '.' :: rest => if (Numeral.digits rest).1.isEmpty then ([], cs) else Numeral.digits rest
  | _ => ([], cs)

/-- An exponent, with its `e`. -/
def exponent (cs : List Char) : Option (Option Int × List Char) :=
  match cs with
  | 'e' :: rest | 'E' :: rest =>
    let (negative, rest) := Numeral.sign rest
    let (ds, rest) := Numeral.digits rest
    if ds.isEmpty then none else some (some (Numeral.signedValue negative ds), rest)
  | _ => some (none, cs)

/-- The number that a float without a sign stands for: an integer, if it is one that fits. -/
def ofFloat (x : Double) : Document :=
  match Exact.ofFloat? x.toFloat with
  | some value => if value.isWhole && value.trunc ≤ greatest then .int value.trunc else .float x
  | none => .float x

/-- A number without a sign.  One that is written like an integer has to fit, and a float has to be finite. -/
def number : Reader Document := fun cs => do
  let (whole, rest) := Numeral.digits cs
  let (places, rest) := fraction rest
  let (e, rest) ← exponent rest
  if whole.isEmpty then none
  else if places.isEmpty && e.isNone then
    let n := Digits.value whole
    if n ≤ greatest then return (.int n, rest) else none
  else
    let x := Double.ofFloat (Numeral.ofParts whole places (e.getD 0))
    if x.isInf then none else return (ofFloat x, rest)

/-- The negative of a number: of an integer it is an integer, if that fits, and a float otherwise. -/
def negate : Document → Document
  | .int n => if n ≤ greatestNegated then .int (-n) else .float (-.ofFloat (Float.ofInt n))
  | .float x => .float (-x)
  | d => d

/-! ### All of them -/

/-- A value that is no list. -/
def scalar : Reader Document := fun cs =>
  match cs with
  | '"' :: rest => Reader.map .str text rest
  | '-' :: rest => Reader.map negate number (skipBlank rest)
  | _ =>
    match name cs with
    | some ("true", rest) => some (.bool true, rest)
    | some ("false", rest) => some (.bool false, rest)
    | some ("null", rest) => some (.null, rest)
    | some _ => none
    | none => number cs

end Millrace.Document.Hcl
