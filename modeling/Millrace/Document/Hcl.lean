import Millrace.Document.Hcl.Body
import Millrace.Document.Hcl.Scalar

/-!
# Reading HCL

The part of the language that job files are written in: attributes and blocks, and as values lists, texts, numbers
and truth values.
-/

namespace Millrace.Document.Hcl

/-! ### Values -/

mutual

/-- A value; `bound` limits the number of steps. -/
def value : Nat → Reader Document
  | 0 => fun _ => none
  | bound + 1 => fun cs =>
    match cs with
    | '[' :: rest => Reader.map .list (items bound) (skipLines rest)
    | _ => scalar cs

/-- The items of a list, up to its bracket; a comma may stand after the last one. -/
def items : Nat → Reader (List Document)
  | 0 => fun _ => none
  | bound + 1 => fun cs =>
    match cs with
    | ']' :: rest => some ([], rest)
    | _ => do
      let (d, cs) ← value bound cs
      match skipLines cs with
      | ']' :: rest => return ([d], rest)
      | ',' :: rest =>
        let (ds, rest) ← items bound (skipLines rest)
        return (d :: ds, rest)
      | _ => none

end

/-! ### Bodies -/

/-- The labels of a block and the brace that opens it. -/
def labels : Nat → Reader (List String)
  | 0 => fun _ => none
  | bound + 1 => fun cs =>
    match skipBlank cs with
    | '\x7b' :: rest => some ([], rest)
    | '"' :: rest => do
      let (first, rest) ← label rest
      let (others, rest) ← labels bound rest
      return (first :: others, rest)
    | cs => do
      let (first, rest) ← name cs
      let (others, rest) ← labels bound rest
      return (first :: others, rest)

/-- The value of an attribute, after its equals sign. -/
def attrValue (cs : List Char) : Option (Document × List Char) := value (2 * cs.length + 2) (skipBlank cs)

mutual

/-- What stands in a body; `bound` limits the number of steps. -/
def body : Nat → Reader (List Structure)
  | 0 => fun _ => none
  | bound + 1 => fun cs =>
    match skipLines cs with
    | [] => some ([], [])
    | '\x7d' :: rest => some ([], '\x7d' :: rest)
    | cs => do
      let (key, cs) ← name cs
      match skipBlank cs with
      | '=' :: rest =>
        let (d, rest) ← attrValue rest
        let (others, rest) ← body bound (← endLine? rest)
        return (.attr key d :: others, rest)
      | rest =>
        let (keys, rest) ← labels bound rest
        let (d, rest) ← braced bound rest
        let (others, rest) ← body bound (← endLine? rest)
        return (.block key keys d :: others, rest)

/-- The body of a block after its opening brace: lines of their own, or a single attribute on the same line. -/
def braced : Nat → Reader Document
  | 0 => fun _ => none
  | bound + 1 => fun cs =>
    match endLine? cs with
    | some rest => do
      let (structures, rest) ← body bound rest
      let d ← tableOf? structures
      match rest with
      | '\x7d' :: rest => return (d, rest)
      | _ => none
    | none =>
      match skipBlank cs with
      | '\x7d' :: rest => some (.table [], rest)
      | cs => do
        let (key, cs) ← name cs
        match skipBlank cs with
        | '=' :: rest =>
          let (d, rest) ← attrValue rest
          match skipBlank rest with
          | '\x7d' :: rest => return (.table [(key, d)], rest)
          | _ => none
        | _ => none

end

/-- The document that a text makes up. -/
def parse? (text : String) : Option Document := do
  let cs := text.toList
  let (structures, rest) ← body (2 * cs.length + 2) cs
  if rest.isEmpty then tableOf? structures else none

end Millrace.Document.Hcl
