import Millrace.Document.Tree

/-!
# Readers

What the readers of the document formats have in common.
-/

namespace Millrace.Document

/-- A reader takes something off the front of a text and gives what is left. -/
abbrev Reader (α : Type) := List Char → Option (α × List Char)

/-- Applies a function to what a reader takes. -/
def Reader.map {α β : Type} (f : α → β) (reader : Reader α) : Reader β := fun cs =>
  (reader cs).map fun (x, rest) => (f x, rest)

/-- The digit that a hexadecimal character stands for. -/
def hexDigit? (c : Char) : Option Nat :=
  if c.isDigit then some (c.toNat - '0'.toNat)
  else if 'a' ≤ c && c ≤ 'f' then some (c.toNat - 'a'.toNat + 10)
  else if 'A' ≤ c && c ≤ 'F' then some (c.toNat - 'A'.toNat + 10)
  else none

/-- The number that hexadecimal digits stand for. -/
def hexValue? (cs : List Char) : Option Nat :=
  cs.foldl (fun n c => do return 16 * (← n) + (← hexDigit? c)) (some 0)

/-- The character with the number that the first `n` characters give in hexadecimal. -/
def codePoint? (n : Nat) (cs : List Char) : Option Char := do
  let code ← if n ≤ cs.length then hexValue? (cs.take n) else none
  if code < 0xD800 || (0xDFFF < code && code < 0x110000) then return Char.ofNat code else none

/-- Passes over a line break. -/
def newline? : List Char → Option (List Char)
  | '\n' :: rest => some rest
  | '\r' :: '\n' :: rest => some rest
  | _ => none

end Millrace.Document
