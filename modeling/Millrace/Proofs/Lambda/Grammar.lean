import Millrace.Lambda.Eval
import Millrace.Lambda.Token

/-!
# The grammar of lambdas

Which tokens make up a lambda, and the tree that they stand for (`DerivesLambda`).

    lambda      := 'lambda' names ':' expr
    names       := [name (',' name)* [',']]
    expr        := disjunction ['if' disjunction 'else' expr]
    disjunction := [disjunction 'or'] conjunction
    conjunction := [conjunction 'and'] negation
    negation    := 'not' negation | comparison
    comparison  := sum (compare sum)*
    sum         := [sum ('+' | '-')] term
    term        := [term ('*' | '/' | '//' | '%')] factor
    factor      := ('-' | '+') factor | power
    power       := subscripted ['**' factor]
    subscripted := atom | subscripted '[' expr ']'
    atom        := literal | parameter | constant | function '(' items ')'
                 | '(' expr ')' | '(' ')' | '(' expr ',' items ')'
    items       := [expr (',' expr)* [',']]

A rule that starts with its own phrase groups to the left, one that ends with it to the right.  A name that is no
parameter is `math.` and a member of that module, or the bare name of a function or a constant; a function is always
called, and with a number of arguments that it takes.
-/

namespace Millrace

/-- The mark that an operator is written with. -/
def BinaryOp.mark : BinaryOp → Mark
  | add => .plus
  | sub => .minus
  | mul => .star
  | div => .slash
  | floorDiv => .slashSlash
  | mod => .percent
  | pow => .starStar

def CompareOp.mark : CompareOp → Mark
  | eq => .eqEq
  | ne => .ne
  | lt => .lt
  | le => .le
  | gt => .gt
  | ge => .ge

namespace Grammar

/-- A tree as a phrase of the grammar, from the loosest to the tightest. -/
inductive Phrase where
  | expr (e : Expr)
  | disjunction (e : Expr)
  | conjunction (e : Expr)
  | negation (e : Expr)
  | comparison (e : Expr)
  | sum (e : Expr)
  | term (e : Expr)
  | factor (e : Expr)
  | power (e : Expr)
  | subscripted (e : Expr)
  | atom (e : Expr)
  /-- The arguments of a call, or the further items of a tuple. -/
  | items (es : List Expr)
  /-- The comparisons that follow the first operand of a chain. -/
  | links (links : List (CompareOp × Expr))

/-- Whether the expression is the constant of a number. -/
def IsNumber (e : Expr) (v : Value) : Prop := e = .const v ∧ v.tag ∈ [Tag.int, Tag.float]

/-- What a minus sign makes of an expression.  Of the constant of a number it makes that of the negated number, if
there is one; any other expression is negated when it is evaluated. -/
inductive Negated : Expr → Expr → Prop
  | number {e : Expr} {v negative : Value} : IsNumber e v → UnaryOp.neg.apply v = .ok negative →
      Negated e (.const negative)
  | operator {e : Expr} : (∀ v negative, IsNumber e v → UnaryOp.neg.apply v ≠ .ok negative) →
      Negated e (.unary .neg e)

/-- The tokens that a phrase is written with, in a lambda with these parameters. -/
inductive Derives (params : List String) : Phrase → List Token → Prop
  | expr {e : Expr} {w : List Token} : Derives params (.disjunction e) w → Derives params (.expr e) w
  | ifElse {yes cond no : Expr} {u v w : List Token} : Derives params (.disjunction yes) u →
      Derives params (.disjunction cond) v → Derives params (.expr no) w →
      Derives params (.expr (.ifElse cond yes no)) (u ++ .mark .if :: (v ++ .mark .else :: w))
  | disjunction {e : Expr} {w : List Token} : Derives params (.conjunction e) w → Derives params (.disjunction e) w
  | or {a b : Expr} {v w : List Token} : Derives params (.disjunction a) v → Derives params (.conjunction b) w →
      Derives params (.disjunction (.or a b)) (v ++ .mark .or :: w)
  | conjunction {e : Expr} {w : List Token} : Derives params (.negation e) w → Derives params (.conjunction e) w
  | and {a b : Expr} {v w : List Token} : Derives params (.conjunction a) v → Derives params (.negation b) w →
      Derives params (.conjunction (.and a b)) (v ++ .mark .and :: w)
  | negation {e : Expr} {w : List Token} : Derives params (.comparison e) w → Derives params (.negation e) w
  | not {e : Expr} {w : List Token} : Derives params (.negation e) w →
      Derives params (.negation (.unary .not e)) (.mark .not :: w)
  | comparison {e : Expr} {w : List Token} : Derives params (.sum e) w → Derives params (.comparison e) w
  | compare {first : Expr} {link : CompareOp × Expr} {links : List (CompareOp × Expr)} {v w : List Token} :
      Derives params (.sum first) v → Derives params (.links (link :: links)) w →
      Derives params (.comparison (.compare first (link :: links))) (v ++ w)
  | noLinks : Derives params (.links []) []
  | link {op : CompareOp} {e : Expr} {links : List (CompareOp × Expr)} {v w : List Token} :
      Derives params (.sum e) v → Derives params (.links links) w →
      Derives params (.links ((op, e) :: links)) (.mark op.mark :: (v ++ w))
  | sum {e : Expr} {w : List Token} : Derives params (.term e) w → Derives params (.sum e) w
  | addOrSub {op : BinaryOp} {a b : Expr} {v w : List Token} : op ∈ [.add, .sub] →
      Derives params (.sum a) v → Derives params (.term b) w →
      Derives params (.sum (.binary op a b)) (v ++ .mark op.mark :: w)
  | term {e : Expr} {w : List Token} : Derives params (.factor e) w → Derives params (.term e) w
  | mulOrDiv {op : BinaryOp} {a b : Expr} {v w : List Token} : op ∈ [.mul, .div, .floorDiv, .mod] →
      Derives params (.term a) v → Derives params (.factor b) w →
      Derives params (.term (.binary op a b)) (v ++ .mark op.mark :: w)
  | factor {e : Expr} {w : List Token} : Derives params (.power e) w → Derives params (.factor e) w
  | minus {e negative : Expr} {w : List Token} : Derives params (.factor e) w → Negated e negative →
      Derives params (.factor negative) (.mark .minus :: w)
  | plus {e : Expr} {w : List Token} : Derives params (.factor e) w →
      Derives params (.factor (.unary .pos e)) (.mark .plus :: w)
  | power {e : Expr} {w : List Token} : Derives params (.subscripted e) w → Derives params (.power e) w
  | pow {a b : Expr} {v w : List Token} : Derives params (.subscripted a) v → Derives params (.factor b) w →
      Derives params (.power (.binary .pow a b)) (v ++ .mark .starStar :: w)
  | subscripted {e : Expr} {w : List Token} : Derives params (.atom e) w → Derives params (.subscripted e) w
  | index {base i : Expr} {v w : List Token} : Derives params (.subscripted base) v → Derives params (.expr i) w →
      (∀ name, i ≠ .const (.str name)) →
      Derives params (.subscripted (.index base i)) (v ++ .mark .leftBracket :: (w ++ [.mark .rightBracket]))
  | field {base : Expr} {name : String} {v w : List Token} : Derives params (.subscripted base) v →
      Derives params (.expr (.const (.str name))) w →
      Derives params (.subscripted (.field base name)) (v ++ .mark .leftBracket :: (w ++ [.mark .rightBracket]))
  | int (n : Int64) : Derives params (.atom (.const (.int n))) [.int n]
  | float (x : Double) : Derives params (.atom (.const (.float x))) [.float x]
  | str (s : String) : Derives params (.atom (.const (.str s))) [.str s]
  | yes : Derives params (.atom (.const (.bool true))) [.mark .true]
  | no : Derives params (.atom (.const (.bool false))) [.mark .false]
  | param {name : String} {i : Nat} : params.idxOf? name = some i → Derives params (.atom (.param i)) [.ident name]
  | constant {name : String} {x : Double} : name ∉ params → mathConstant? name = some x →
      Derives params (.atom (.const (.float x))) [.ident name]
  | mathConstant {name : String} {x : Double} : "math" ∉ params → mathConstant? name = some x →
      Derives params (.atom (.const (.float x))) [.ident "math", .mark .dot, .ident name]
  | call {name : String} {f : Builtin} {args : List Expr} {w : List Token} : name ∉ params →
      Builtin.global? name = some f → Derives params (.items args) w → f.accepts args.length = true →
      Derives params (.atom (.call f args)) (.ident name :: .mark .leftParen :: (w ++ [.mark .rightParen]))
  | mathCall {name : String} {f : Builtin} {args : List Expr} {w : List Token} : "math" ∉ params →
      Builtin.math? name = some f → Derives params (.items args) w → f.accepts args.length = true →
      Derives params (.atom (.call f args))
        (.ident "math" :: .mark .dot :: .ident name :: .mark .leftParen :: (w ++ [.mark .rightParen]))
  | parens {e : Expr} {w : List Token} : Derives params (.expr e) w →
      Derives params (.atom e) (.mark .leftParen :: (w ++ [.mark .rightParen]))
  | unit : Derives params (.atom (.tuple [])) [.mark .leftParen, .mark .rightParen]
  | tuple {first : Expr} {others : List Expr} {v w : List Token} : Derives params (.expr first) v →
      Derives params (.items others) w →
      Derives params (.atom (.tuple (first :: others)))
        (.mark .leftParen :: (v ++ .mark .comma :: (w ++ [.mark .rightParen])))
  | noItems : Derives params (.items []) []
  | lastItem {e : Expr} {w : List Token} : Derives params (.expr e) w → Derives params (.items [e]) w
  | item {e : Expr} {others : List Expr} {v w : List Token} : Derives params (.expr e) v →
      Derives params (.items others) w → Derives params (.items (e :: others)) (v ++ .mark .comma :: w)

/-- Names separated by commas, the last of which may be followed by a comma. -/
inductive DerivesNames : List String → List Token → Prop
  | none : DerivesNames [] []
  | last (name : String) : DerivesNames [name] [.ident name]
  | next {name : String} {others : List String} {w : List Token} : DerivesNames others w →
      DerivesNames (name :: others) (.ident name :: .mark .comma :: w)

/-- The tokens that a lambda is written with; its parameters have different names. -/
inductive DerivesLambda : List String → Expr → List Token → Prop
  | lambda {params : List String} {body : Expr} {v w : List Token} : DerivesNames params v → params.Nodup →
      Derives params (.expr body) w → DerivesLambda params body (.mark .lambda :: (v ++ .mark .colon :: w))

/-! ### Negative numbers -/

/-- A number that is negated beforehand has the value of its negation. -/
theorem Negated.eval {e negative : Expr} (h : Negated e negative) (args : List Value) :
    negative.eval args = (Expr.unary .neg e).eval args := by
  cases h with
  | operator h => rfl
  | number hv hw =>
    obtain ⟨rfl, -⟩ := hv
    exact hw.symm

end Grammar
end Millrace
