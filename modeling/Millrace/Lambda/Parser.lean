import Millrace.Lambda.Error
import Millrace.Lambda.Expr

/-!
# From tokens to expressions

Recursive descent over the grammar

    lambda     := 'lambda' [name (',' name)* [',']] ':' expr
    expr       := disjunction ['if' disjunction 'else' expr]
    disjunction := conjunction ('or' conjunction)*
    conjunction := negation ('and' negation)*
    negation   := 'not' negation | comparison
    comparison := sum (compare sum)*
    sum        := term (('+' | '-') term)*
    term       := factor (('*' | '/' | '//' | '%') factor)*
    factor     := ('-' | '+') factor | power
    power      := postfix ['**' factor]
    postfix    := atom ('[' expr ']')*

A rule refers to itself only after it has taken a token.  The rules are therefore written over a parser `again` for
what follows, and `Parser.level` ties the knot by recursion on a bound for the number of tokens left.
-/

namespace Millrace

/-- Reads something off the front of the tokens and gives what is left of them. -/
abbrev Parser (α : Type) := List PlacedToken → Except ParseError (α × List PlacedToken)

namespace Parser

/-! ### Single tokens -/

/-- The mark in front, if a mark stands there. -/
def headMark? : List PlacedToken → Option Mark
  | ⟨.mark m, _, _⟩ :: _ => some m
  | _ => none

/-- Takes the mark `m` if it stands in front. -/
def eat? (m : Mark) (ts : List PlacedToken) : Option (List PlacedToken) :=
  if headMark? ts = some m then some ts.tail else none

/-- Takes the mark `m`, which has to stand in front. -/
def expect (m : Mark) (ts : List PlacedToken) : Except ParseError (List PlacedToken) :=
  match ts with
  | t :: rest => if t.token = .mark m then .ok rest else .error ⟨.expected m (some t.token), some t.start⟩
  | [] => .error ⟨.expected m none, none⟩

/-- Takes an identifier, with its position. -/
def ident : Parser (String × Nat)
  | ⟨.ident name, start, _⟩ :: rest => .ok ((name, start), rest)
  | t :: _ => .error ⟨.expectedIdentifier (some t.token), some t.start⟩
  | [] => .error ⟨.expectedIdentifier none, none⟩

/-! ### Chains and lists -/

/-- Further operands of a chain of operators that group to the left; `bound` limits their number. -/
def chainRest (op? : Mark → Option (Expr → Expr → Expr)) (operand : Parser Expr) (bound : Nat) (left : Expr) :
    Parser Expr := fun ts =>
  match bound, (headMark? ts).bind op? with
  | bound + 1, some op => do
    let (right, rest) ← operand ts.tail
    chainRest op? operand bound (op left right) rest
  | _, _ => .ok (left, ts)

/-- A chain of operators that group to the left. -/
def chain (op? : Mark → Option (Expr → Expr → Expr)) (operand : Parser Expr) : Parser Expr := fun ts => do
  let (first, rest) ← operand ts
  chainRest op? operand rest.length first rest

/-- Items separated by commas before a right parenthesis; the last comma may be followed by no item. -/
def items (item : Parser Expr) (bound : Nat) : Parser (List Expr) := fun ts =>
  match bound, headMark? ts with
  | 0, _ | _, some .rightParen => .ok ([], ts)
  | bound + 1, _ => do
    let (first, rest) ← item ts
    match eat? .comma rest with
    | none => return ([first], rest)
    | some rest =>
      let (others, rest) ← items item bound rest
      return (first :: others, rest)

/-! ### The rules -/

/-- The rules that refer to themselves. -/
inductive Level where
  | expr
  | negation
  | factor
  deriving Repr, DecidableEq

section Rules

variable (params : List String) (again : Level → Parser Expr)

/-- A call of `f`, named at `position`. -/
def call (f : Builtin) (position : Nat) : Parser Expr := fun ts => do
  let ts ← expect .leftParen ts
  let (args, ts) ← items (again .expr) (ts.length + 1) ts
  let ts ← expect .rightParen ts
  if f.accepts args.length then return (.call f args, ts)
  else .error ⟨.argumentCount f args.length, some position⟩

/-- The constant or the function that a name stands for. -/
def named (function? : String → Option Builtin) (shown : String) (name : String) (position : Nat) : Parser Expr :=
  fun ts =>
    if headMark? ts = some .leftParen then
      match function? name with
      | some f => call again f position ts
      | none => .error ⟨.unknownFunction shown, some position⟩
    else
      match mathConstant? name with
      | some x => .ok (.const (.float x), ts)
      | none => .error ⟨.unknownName shown, some position⟩

/-- A name: a parameter before all else, then a name of the `math` module, then a bare name. -/
def name (name : String) (position : Nat) : Parser Expr := fun ts =>
  match params.idxOf? name with
  | some i => .ok (.param i, ts)
  | none =>
    match (if name = "math" then eat? .dot ts else none) with
    | some ts => do
      let ((member, position), ts) ← ident ts
      named again Builtin.math? ("math." ++ member) member position ts
    | none => named again Builtin.global? name name position ts

/-- What follows a left parenthesis: nothing, one expression, or the items of a tuple. -/
def parenthesized : Parser Expr := fun ts =>
  match eat? .rightParen ts with
  | some ts => .ok (.tuple [], ts)
  | none => do
    let (first, ts) ← again .expr ts
    match eat? .rightParen ts with
    | some ts => return (first, ts)
    | none =>
      let (others, ts) ← match eat? .comma ts with
        | some ts => items (again .expr) (ts.length + 1) ts
        | none => .ok ([], ts)
      let ts ← expect .rightParen ts
      return (.tuple (first :: others), ts)

def atom : Parser Expr
  | [] => .error ⟨.unexpectedEnd, none⟩
  | t :: ts =>
    match t.token with
    | .int n => .ok (.const (.int n), ts)
    | .float x => .ok (.const (.float x), ts)
    | .str s => .ok (.const (.str s), ts)
    | .mark .true => .ok (.const (.bool true), ts)
    | .mark .false => .ok (.const (.bool false), ts)
    | .mark .leftParen => parenthesized again ts
    | .ident text => name params again text t.start ts
    | .mark m => .error ⟨.unexpectedToken (.mark m), some t.start⟩

/-- A subscript: a constant text names a column. -/
def subscript (base i : Expr) : Expr :=
  match i with
  | .const (.str name) => .field base name
  | i => .index base i

/-- Subscripts after an expression; `bound` limits their number.  Nothing else may follow. -/
def postfixRest (bound : Nat) (base : Expr) : Parser Expr := fun ts =>
  match bound, ts with
  | bound + 1, ⟨.mark .leftBracket, _, _⟩ :: ts => do
    let (i, ts) ← again .expr ts
    let ts ← expect .rightBracket ts
    postfixRest bound (subscript base i) ts
  | _, ⟨.mark .leftParen, start, _⟩ :: _ => .error ⟨.calledExpression, some start⟩
  | _, ⟨.mark .dot, start, _⟩ :: _ => .error ⟨.calledExpression, some start⟩
  | _, ts => .ok (base, ts)

def postfixed : Parser Expr := fun ts => do
  let (base, rest) ← atom params again ts
  postfixRest again rest.length base rest

def power : Parser Expr := fun ts => do
  let (base, ts) ← postfixed params again ts
  match eat? .starStar ts with
  | some ts =>
    let (exponent, ts) ← again .factor ts
    return (.binary .pow base exponent, ts)
  | none => return (base, ts)

/-- A minus sign in front of an expression: of a number it makes the negative number. -/
def negated : Expr → Expr
  | .const (.int n) => if n = Int64.minValue then .unary .neg (.const (.int n)) else .const (.int (-n))
  | .const (.float x) => .const (.float (-x))
  | e => .unary .neg e

def factor : Parser Expr := fun ts =>
  match headMark? ts with
  | some .minus => do
    let (e, ts) ← again .factor ts.tail
    return (negated e, ts)
  | some .plus => do
    let (e, ts) ← again .factor ts.tail
    return (.unary .pos e, ts)
  | _ => power params again ts

def term : Parser Expr :=
  chain (fun
    | .star => some (.binary .mul)
    | .slash => some (.binary .div)
    | .slashSlash => some (.binary .floorDiv)
    | .percent => some (.binary .mod)
    | _ => none) (factor params again)

def sum : Parser Expr :=
  chain (fun
    | .plus => some (.binary .add)
    | .minus => some (.binary .sub)
    | _ => none) (term params again)

/-- The comparison that a mark stands for. -/
def compareOp? : Mark → Option CompareOp
  | .eqEq => some .eq
  | .ne => some .ne
  | .lt => some .lt
  | .le => some .le
  | .gt => some .gt
  | .ge => some .ge
  | _ => none

/-- The links of a chain of comparisons; `bound` limits their number. -/
def links (operand : Parser Expr) (bound : Nat) : Parser (List (CompareOp × Expr)) := fun ts =>
  match bound, (headMark? ts).bind compareOp? with
  | bound + 1, some op => do
    let (e, ts) ← operand ts.tail
    let (others, ts) ← links operand bound ts
    return ((op, e) :: others, ts)
  | _, _ => .ok ([], ts)

def comparison : Parser Expr := fun ts => do
  let (first, ts) ← sum params again ts
  match ← links (sum params again) ts.length ts with
  | ([], ts) => return (first, ts)
  | (chained, ts) => return (.compare first chained, ts)

def negation : Parser Expr := fun ts =>
  match eat? .not ts with
  | some ts => do
    let (e, ts) ← again .negation ts
    return (.unary .not e, ts)
  | none => comparison params again ts

def conjunction : Parser Expr :=
  chain (fun
    | .and => some .and
    | _ => none) (negation params again)

def disjunction : Parser Expr :=
  chain (fun
    | .or => some .or
    | _ => none) (conjunction params again)

def expr : Parser Expr := fun ts => do
  let (yes, ts) ← disjunction params again ts
  match eat? .if ts with
  | none => return (yes, ts)
  | some ts =>
    let (cond, ts) ← disjunction params again ts
    let ts ← expect .else ts
    let (no, ts) ← again .expr ts
    return (.ifElse cond yes no, ts)

end Rules

/-- The rule of a level, for at most `bound` tokens. -/
def level (params : List String) : Nat → Level → Parser Expr
  | 0, _ => fun _ => .error ⟨.unexpectedEnd, none⟩
  | bound + 1, .expr => expr params (level params bound)
  | bound + 1, .negation => negation params (level params bound)
  | bound + 1, .factor => factor params (level params bound)

/-! ### Lambdas -/

/-- Parameter names up to the colon, none of them twice; `bound` limits their number. -/
def parameters (seen : List String) : Nat → Parser (List String)
  | 0 => fun ts => .ok (seen, ts)
  | bound + 1 => fun ts =>
    if headMark? ts = some .colon then .ok (seen, ts)
    else do
      let ((name, position), rest) ← ident ts
      if seen.contains name then .error ⟨.duplicateParameter name, some position⟩
      else
        match eat? .comma rest with
        | some rest => parameters (seen ++ [name]) bound rest
        | none => return (seen ++ [name], rest)

/-- The parameters and the body of the lambda that the tokens make up. -/
def lambda (ts : List PlacedToken) : Except ParseError (List String × Expr) := do
  let ts ← expect .lambda ts
  let (params, ts) ← parameters [] (ts.length + 1) ts
  let ts ← expect .colon ts
  let (body, ts) ← level params (ts.length + 1) .expr ts
  match ts with
  | [] => return (params, body)
  | t :: _ => .error ⟨.trailing t.token, some t.start⟩

end Parser
end Millrace
