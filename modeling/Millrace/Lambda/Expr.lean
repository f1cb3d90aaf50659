import Millrace.Lambda.Builtin
import Millrace.Lambda.Operator
import Millrace.Value

/-!
# Expressions

The bodies of lambdas.  `Expr.subterms` lists an expression and everything inside it, outermost first and from left
to right; the questions about an expression (its parameters, its calls, its named columns) are questions about
that list.
-/

namespace Millrace

inductive Expr where
  | const (v : Value)
  /-- A parameter of the lambda, by position. -/
  | param (i : Nat)
  | unary (op : UnaryOp) (e : Expr)
  | binary (op : BinaryOp) (a b : Expr)
  /-- A chain of comparisons: the first operand, then each operator with its right operand. -/
  | compare (first : Expr) (links : List (CompareOp × Expr))
  | and (a b : Expr)
  | or (a b : Expr)
  | ifElse (cond yes no : Expr)
  | call (f : Builtin) (args : List Expr)
  | tuple (items : List Expr)
  | index (base i : Expr)
  /-- A column by name, until the names are known. -/
  | field (base : Expr) (name : String)

namespace Expr

mutual

/-- The expression and everything inside it, outermost first and from left to right. -/
def subterms : Expr → List Expr
  | const v => [const v]
  | param i => [param i]
  | unary op e => unary op e :: e.subterms
  | binary op a b => binary op a b :: (a.subterms ++ b.subterms)
  | compare first links => compare first links :: (first.subterms ++ subtermsOfLinks links)
  | and a b => and a b :: (a.subterms ++ b.subterms)
  | or a b => or a b :: (a.subterms ++ b.subterms)
  | ifElse c y n => ifElse c y n :: (c.subterms ++ (y.subterms ++ n.subterms))
  | call f args => call f args :: subtermsOfAll args
  | tuple items => tuple items :: subtermsOfAll items
  | index base i => index base i :: (base.subterms ++ i.subterms)
  | field base name => field base name :: base.subterms

def subtermsOfAll : List Expr → List Expr
  | [] => []
  | e :: rest => e.subterms ++ subtermsOfAll rest

def subtermsOfLinks : List (CompareOp × Expr) → List Expr
  | [] => []
  | (_, e) :: rest => e.subterms ++ subtermsOfLinks rest

end

/-- The position of a parameter. -/
def asParam? : Expr → Option Nat
  | param i => some i
  | _ => none

/-- The name of a named column. -/
def asFieldName? : Expr → Option String
  | field _ name => some name
  | _ => none

/-- A call whose number of arguments the function does not take. -/
def asBadCall? : Expr → Option (Builtin × Nat)
  | call f args => if f.accepts args.length then none else some (f, args.length)
  | _ => none

/-- The greatest parameter position. -/
def maxParam? (e : Expr) : Option Nat := (e.subterms.filterMap asParam?).max?

/-- Whether a column is accessed by name. -/
def hasFields (e : Expr) : Bool := e.subterms.any (·.asFieldName?.isSome)

/-- The first call whose number of arguments the function does not take. -/
def badCall? (e : Expr) : Option (Builtin × Nat) := e.subterms.findSome? asBadCall?

/-! ### Resolving names -/

variable {ε : Type} (position : String → Except ε Nat)

mutual

/-- Replaces each named column by its position, the innermost and leftmost first. -/
def resolveFields : Expr → Except ε Expr
  | const v => .ok (const v)
  | param i => .ok (param i)
  | unary op e => do
    return unary op (← resolveFields e)
  | binary op a b => do
    let a ← resolveFields a
    let b ← resolveFields b
    return binary op a b
  | compare first links => do
    let first ← resolveFields first
    let links ← resolveLinks links
    return compare first links
  | and a b => do
    let a ← resolveFields a
    let b ← resolveFields b
    return and a b
  | or a b => do
    let a ← resolveFields a
    let b ← resolveFields b
    return or a b
  | ifElse c y n => do
    let c ← resolveFields c
    let y ← resolveFields y
    let n ← resolveFields n
    return ifElse c y n
  | call f args => do
    return call f (← resolveAll args)
  | tuple items => do
    return tuple (← resolveAll items)
  | index base i => do
    let base ← resolveFields base
    let i ← resolveFields i
    return index base i
  | field base name => do
    let base ← resolveFields base
    let p ← position name
    return index base (const (.int (Int64.ofNat p)))

def resolveAll : List Expr → Except ε (List Expr)
  | [] => .ok []
  | e :: rest => do
    let e ← resolveFields e
    let rest ← resolveAll rest
    return e :: rest

def resolveLinks : List (CompareOp × Expr) → Except ε (List (CompareOp × Expr))
  | [] => .ok []
  | (op, e) :: rest => do
    let e ← resolveFields e
    let rest ← resolveLinks rest
    return (op, e) :: rest

end

end Expr
end Millrace
