import Millrace.Lambda.Error
import Millrace.Number.Numeral

/-!
# From text to tokens

White space and backslashes separate tokens; everything else belongs to one.  `scan` reads the token at the front
of a text and says how many further characters it takes, each word, number and operator taking as many as it can.
-/

namespace Millrace.Lexer

/-- White space between tokens, and the backslash that continues a line. -/
def isGap (c : Char) : Bool :=
  c = ' ' || c = '\t' || c = '\n' || c = '\r' || c = '\x0c' || c = '\\'

def isWordStart (c : Char) : Bool := c.isAlpha || c = '_'

def isWordPart (c : Char) : Bool := c.isAlphanum || c = '_'

/-- Digits of a number, with underscores among them. -/
def isNumberPart (c : Char) : Bool := c.isDigit || c = '_'

/-- The mark that a word is. -/
def keyword? : String → Option Mark
  | "lambda" => some .lambda
  | "and" => some .and
  | "or" => some .or
  | "not" => some .not
  | "if" => some .if
  | "else" => some .else
  | "True" => some .true
  | "False" => some .false
  | _ => none

/-! ### Numbers -/

/-- An exponent in front of `cs`: its characters after the `e`.  An `e` without a digit belongs to no number. -/
def exponentPart (cs : List Char) : List Char :=
  match cs with
  | e :: rest =>
    if e = 'e' || e = 'E' then
      match rest with
      | s :: d :: more =>
        if (s = '+' || s = '-') && d.isDigit then s :: d :: more.takeWhile isNumberPart
        else if s.isDigit then s :: (d :: more).takeWhile isNumberPart
        else []
      | [d] => if d.isDigit then [d] else []
      | [] => []
    else []
  | [] => []

/-- The parts of the number in front of a text. -/
structure NumberParts where
  whole : List Char
  /-- Whether a point follows the first digits. -/
  hasPoint : Bool
  fraction : List Char
  /-- The exponent after its `e`; without one it is empty. -/
  exponent : List Char

def numberParts (cs : List Char) : NumberParts :=
  let whole := cs.takeWhile isNumberPart
  match cs.drop whole.length with
  | '.' :: rest =>
    let fraction := rest.takeWhile isNumberPart
    ⟨whole, true, fraction, exponentPart (rest.drop fraction.length)⟩
  | rest => ⟨whole, false, [], exponentPart rest⟩

namespace NumberParts

/-- How many characters the number takes. -/
def length (p : NumberParts) : Nat :=
  p.whole.length + (if p.hasPoint then 1 + p.fraction.length else 0)
    + (if p.exponent.isEmpty then 0 else 1 + p.exponent.length)

/-- The exponent's value. -/
def exponentValue (p : NumberParts) : Int :=
  let (negative, digits) := Numeral.sign p.exponent
  Numeral.signedValue negative digits

/-- A number with a point or an exponent is a float, any other an integer. -/
def token (p : NumberParts) : Except ParseCause Token :=
  if p.hasPoint || !p.exponent.isEmpty then
    let x := Numeral.ofParts (p.whole.filter (·.isDigit)) (p.fraction.filter (·.isDigit)) p.exponentValue
    .ok (.float (.ofFloat x))
  else
    match Whole.ofInt? (Digits.value p.whole) with
    | some n => .ok (.int n)
    | none => .error .integerTooLarge

end NumberParts

/-! ### Texts -/

/-- The character that an escape stands for. -/
def unescape : Char → Char
  | 'n' => '\n'
  | 't' => '\t'
  | 'r' => '\r'
  | '0' => '\x00'
  | c => c

/-- The text up to the closing quote, and how many characters it takes with that quote. -/
def quotedText (quote : Char) : List Char → Option (List Char × Nat)
  | [] => none
  | c :: rest =>
    if c = quote then some ([], 1)
    else if c = '\\' then
      match rest with
      | [] => none
      | e :: more => (quotedText quote more).map fun (text, n) => (unescape e :: text, n + 2)
    else if c = '\n' then none
    else (quotedText quote rest).map fun (text, n) => (c :: text, n + 1)

/-! ### Operators -/

/-- The mark of two characters. -/
def pairMark? : Char → Char → Option Mark
  | '*', '*' => some .starStar
  | '/', '/' => some .slashSlash
  | '=', '=' => some .eqEq
  | '!', '=' => some .ne
  | '<', '=' => some .le
  | '>', '=' => some .ge
  | _, _ => none

/-- The mark of one character. -/
def charMark? : Char → Option Mark
  | '+' => some .plus
  | '-' => some .minus
  | '*' => some .star
  | '/' => some .slash
  | '%' => some .percent
  | '(' => some .leftParen
  | ')' => some .rightParen
  | '[' => some .leftBracket
  | ']' => some .rightBracket
  | ',' => some .comma
  | ':' => some .colon
  | '.' => some .dot
  | '<' => some .lt
  | '>' => some .gt
  | _ => none

/-- The operator that starts with `c`, and how many further characters it takes. -/
def operator (c : Char) (rest : List Char) : Except ParseCause (Token × Nat) :=
  match rest.head?.bind (pairMark? c) with
  | some m => .ok (.mark m, 1)
  | none =>
    match charMark? c with
    | some m => .ok (.mark m, 0)
    | none => .error (.unexpectedCharacter c)

/-! ### All tokens -/

/-- The token that starts with `c`, and how many of the characters after `c` it takes. -/
def scan (c : Char) (rest : List Char) : Except ParseCause (Token × Nat) :=
  if c.isDigit || (c = '.' && rest.head?.any (·.isDigit)) then
    let p := numberParts (c :: rest)
    p.token.map fun t => (t, p.length - 1)
  else if isWordStart c then
    let word := c :: rest.takeWhile isWordPart
    let text := String.ofList word
    .ok (((keyword? text).map Token.mark).getD (.ident text), word.length - 1)
  else if c = '\'' || c = '"' then
    match quotedText c rest with
    | some (text, n) => .ok (.str (String.ofList text), n)
    | none => .error .unterminatedText
  else operator c rest

/-- The tokens of a text whose first character stands at `position`. -/
def tokensFrom (position : Nat) : List Char → Except ParseError (List PlacedToken)
  | [] => .ok []
  | c :: rest =>
    if isGap c then tokensFrom (position + 1) rest
    else
      match scan c rest with
      | .error cause => .error ⟨cause, some position⟩
      | .ok (token, n) => do
        let stop := position + 1 + n
        let others ← tokensFrom stop (rest.drop n)
        return ⟨token, position, stop⟩ :: others
termination_by cs => cs.length

/-- The tokens of a text. -/
def tokens (cs : List Char) : Except ParseError (List PlacedToken) := tokensFrom 0 cs

end Millrace.Lexer
