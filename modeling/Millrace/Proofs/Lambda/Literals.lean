import Millrace.Proofs.Lambda.Acceptance
import Millrace.Proofs.Lambda.Lexing
import Millrace.Value.Text

/-!
# Values as literals

The text that a value prints is a literal of the language of lambdas: it is made of the tokens `Value.tokens`, these
derive the expression `Value.literal`, and the expression has the value.  A negative number is printed with a minus
sign, and the parser puts the number together again; the least integer has no positive counterpart to do so with, and
is left out as floats are (`Value.Printable`).

## Main statements

* `lexes_repr`: the tokens of a printed value.
* `derives_literal`: the expression that they derive.
* `Value.parse_repr`: a printed value reads back as the value.
-/

namespace Millrace
namespace Value

mutual

/-- Whether the value contains no float and no least integer. -/
def Printable : Value → Prop
  | .bool _ | .str _ => True
  | .int n => n ≠ Int64.minValue
  | .float _ => False
  | .tuple items => AllPrintable items

def AllPrintable : List Value → Prop
  | [] => True
  | v :: rest => Printable v ∧ AllPrintable rest

end

mutual

/-- The expression that a printed value is. -/
def literal : Value → Expr
  | .tuple items => .tuple (literals items)
  | v => .const v

def literals : List Value → List Expr
  | [] => []
  | v :: rest => literal v :: literals rest

end

mutual

/-- The tokens of a printed value; a tuple of one item keeps its comma. -/
def tokens : Value → List Token
  | .bool true => [.mark .true]
  | .bool false => [.mark .false]
  | .int n => if n.toInt < 0 then [.mark .minus, .int (-n)] else [.int n]
  | .float x => [.float x]
  | .str s => [.str s]
  | .tuple [] => [.mark .leftParen, .mark .rightParen]
  | .tuple (first :: others) =>
    .mark .leftParen :: (tokens first ++ .mark .comma :: (itemTokens others ++ [.mark .rightParen]))

def itemTokens : List Value → List Token
  | [] => []
  | [v] => tokens v
  | v :: rest => tokens v ++ .mark .comma :: itemTokens rest

end

/-! ### Evaluation -/

mutual

theorem eval_literal (args : List Value) : (v : Value) → v.literal.eval args = .ok v
  | .bool b => rfl
  | .int n => rfl
  | .float x => rfl
  | .str s => rfl
  | .tuple items => by
    rw [literal, Expr.eval, evalAll_literals args items]
    rfl

theorem evalAll_literals (args : List Value) : (vs : List Value) → Expr.evalAll args (literals vs) = .ok vs
  | [] => rfl
  | v :: rest => by
    rw [literals, Expr.evalAll, eval_literal args v, evalAll_literals args rest]
    rfl

end

/-! ### Tokens -/

open Lexer

theorem ofInt?_toInt (n : Int64) : Whole.ofInt? n.toInt = some n := by
  have hrange : Whole.least ≤ n.toInt ∧ n.toInt ≤ Whole.greatest :=
    ⟨Int64.le_toInt n, Int.le_of_lt_add_one (Int64.toInt_lt n)⟩
  rw [Whole.ofInt?, if_pos hrange, Int64.ofInt_toInt]

/-- The magnitude of a negative number is a number, unless the number is the least one. -/
theorem ofInt?_natAbs {n : Int64} (hn : n ≠ Int64.minValue) (hneg : n.toInt < 0) :
    Whole.ofInt? n.toInt.natAbs = some (-n) := by
  have habs : (n.toInt.natAbs : Int) = -n.toInt := by omega
  have hread : Whole.neg n = .ok (-n) := Whole.neg_eq_ok_iff.2 ⟨hn, rfl⟩
  unfold Whole.neg Whole.checked at hread
  rw [habs]
  split at hread
  · next m hm =>
    cases hread
    exact hm
  · cases hread

theorem lexes_int {n : Int64} (hn : n ≠ Int64.minValue) :
    Lexes (Digits.signed n.toInt).toList (Value.int n).tokens := by
  rw [Digits.signed, tokens]
  split
  · next hneg =>
    have htext : ("-" ++ Digits.text n.toInt.natAbs).toList = '-' :: Digits.chars (Digits.ofNat n.toInt.natAbs) := by
      simp [Digits.text]
    rw [htext]
    exact .mark (by decide) (lexes_digits (ofInt?_natAbs hn hneg))
  · next hpos =>
    have habs : (n.toInt.natAbs : Int) = n.toInt := by omega
    rw [Digits.text, String.toList_ofList]
    exact lexes_digits (by rw [habs, ofInt?_toInt])

/-- After a value come a comma or a right parenthesis. -/
theorem lexes_item {cs ds : List Char} {v w : List Token} {c : Char} (hcs : Lexes cs v) (hds : Lexes (c :: ds) w)
    (hc : c = ',' ∨ c = ')') : Lexes (cs ++ c :: ds) (v ++ w) :=
  hcs.append hds fun _ _ => ends_cons hc _

theorem lexes_close : Lexes [')'] [.mark .rightParen] := .mark (by decide) .nil

mutual

/-- The tokens of a printed value. -/
theorem lexes_repr : (v : Value) → v.Printable → Lexes v.repr.toList v.tokens
  | .bool true, _ => by
    have hrepr : (bool true).repr.toList = ['T', 'r', 'u', 'e'] := by decide
    rw [hrepr]
    exact lexes_true
  | .bool false, _ => by
    have hrepr : (bool false).repr.toList = ['F', 'a', 'l', 's', 'e'] := by decide
    rw [hrepr]
    exact lexes_false
  | .int n, h => lexes_int h
  | .float x, h => h.elim
  | .str s, _ => lexes_quoted s
  | .tuple [], _ => .mark (by decide) lexes_close
  | .tuple [v], h => by
    obtain ⟨hv, -⟩ := h
    have hrepr : (tuple [v]).repr.toList = '(' :: (v.repr.toList ++ [',', ')']) := by
      simp [repr, reprItems]
    rw [hrepr]
    exact .mark (by decide) (lexes_item (lexes_repr v hv) (.mark (by decide) lexes_close) (.inl rfl))
  | .tuple (v :: w :: rest), h => by
    obtain ⟨hv, hothers⟩ := h
    have hrepr : (tuple (v :: w :: rest)).repr.toList =
        '(' :: (v.repr.toList ++ ',' :: ' ' :: ((reprItems (w :: rest)).toList ++ [')'])) := by
      simp [repr, reprItems]
    have hitems := lexes_item (lexes_reprItems (w :: rest) hothers) lexes_close (.inr rfl)
    rw [hrepr]
    -- the blank after the comma belongs to no token
    exact .mark (by decide)
      (lexes_item (lexes_repr v hv) (.mark (by decide) (.gap (by decide) hitems)) (.inl rfl))

theorem lexes_reprItems : (vs : List Value) → AllPrintable vs → Lexes (reprItems vs).toList (itemTokens vs)
  | [], _ => .nil
  | [v], h => lexes_repr v h.1
  | v :: w :: rest, h => by
    obtain ⟨hv, hothers⟩ := h
    have hitems := lexes_reprItems (w :: rest) hothers
    have hrepr : (reprItems (v :: w :: rest)).toList =
        v.repr.toList ++ ',' :: ' ' :: (reprItems (w :: rest)).toList := by
      simp [reprItems]
    rw [hrepr]
    exact lexes_item (lexes_repr v hv) (.mark (by decide) (.gap (by decide) hitems)) (.inl rfl)

end

/-! ### Derivations -/

open Grammar

section
variable {params : List String} {e : Expr} {w : List Token}

theorem derives_of_factor (h : Derives params (.factor e) w) : Derives params (.expr e) w :=
  .expr (.disjunction (.conjunction (.negation (.comparison (.sum (.term h))))))

theorem derives_of_atom (h : Derives params (.atom e) w) : Derives params (.expr e) w :=
  derives_of_factor (.factor (.power (.subscripted h)))

end

/-- A negative number is derived from its magnitude. -/
theorem derives_int (params : List String) {n : Int64} (hn : n ≠ Int64.minValue) :
    Derives params (.expr (.const (.int n))) (Value.int n).tokens := by
  rw [tokens]
  split
  · -- the parser negates the magnitude, which gives the number again
    have hback : Whole.neg (-n) = .ok n := by
      refine Whole.neg_eq_ok_iff.2 ⟨fun hmin => hn ?_, Int64.neg_neg.symm⟩
      have hback : - -n = - Int64.minValue := by rw [hmin]
      rw [Int64.neg_neg] at hback
      exact hback
    have hnegated : Negated (.const (.int (-n))) (.const (.int n)) :=
      .number ⟨rfl, List.mem_cons_self ..⟩ (by rw [UnaryOp.apply, hback]; rfl)
    exact derives_of_factor (.minus (.factor (.power (.subscripted (.int (-n))))) hnegated)
  · exact derives_of_atom (.int n)

mutual

/-- The tokens of a printed value derive it as a literal. -/
theorem derives_literal (params : List String) : (v : Value) → v.Printable →
    Derives params (.expr v.literal) v.tokens
  | .bool true, _ => derives_of_atom .yes
  | .bool false, _ => derives_of_atom .no
  | .int _, h => derives_int params h
  | .float _, h => h.elim
  | .str s, _ => derives_of_atom (.str s)
  | .tuple [], _ => derives_of_atom .unit
  | .tuple (v :: rest), h =>
    derives_of_atom (.tuple (derives_literal params v h.1) (derives_literals params rest h.2))

theorem derives_literals (params : List String) : (vs : List Value) → AllPrintable vs →
    Derives params (.items (literals vs)) (itemTokens vs)
  | [], _ => .noItems
  | [v], h => .lastItem (derives_literal params v h.1)
  | v :: w :: rest, h => .item (derives_literal params v h.1) (derives_literals params (w :: rest) h.2)

end

/-! ### Reading back -/

/-- A lambda without parameters. -/
theorem lexes_lambda {cs : List Char} {w : List Token} (h : Lexes cs w) :
    Lexes ("lambda: ".toList ++ cs) (.mark .lambda :: .mark .colon :: w) := by
  have hhead : "lambda: ".toList = 'l' :: ['a', 'm', 'b', 'd', 'a'] ++ [':', ' '] := by decide
  rw [hhead, List.append_assoc]
  exact .cons (by decide) (fun _ _ => rfl) (.mark (by decide) (.gap (by decide) h))

/-- A lambda without parameters is applied to the empty row. -/
theorem parse_lambda {text : String} {w : List Token} {e : Expr} (htext : Lexes text.toList w)
    (he : Derives [] (.expr e) w) :
    Lambda.parse ("lambda: " ++ text) = .ok ⟨[], e, some (Text.trim ("lambda: " ++ text))⟩ := by
  have hall := lexes_lambda htext
  rw [← String.toList_append] at hall
  obtain ⟨placed, hplaced, htokens⟩ := hall.tokens
  have hderives : DerivesLambda [] e (words placed) := by
    rw [hplaced]
    exact .lambda .none List.nodup_nil he
  rw [Lambda.parse, htokens]
  simp only [Parser.ok_bind, Parser.lambda_of_derives hderives]

/-- The printed form of a value reads back as the value, and a quoted text is one token. -/
theorem parse_repr (v : Value) (hv : v.Printable) :
    (∃ f, Lambda.parse ("lambda: " ++ v.repr) = .ok f ∧ f.eval [] = .ok v) ∧
      ∀ s : String, ∃ start stop, Lexer.tokens (Text.quoted s).toList = .ok [⟨.str s, start, stop⟩] := by
  constructor
  · exact ⟨_, parse_lambda (lexes_repr v hv) (derives_literal [] v hv), eval_literal [] v⟩
  · intro s
    obtain ⟨placed, hplaced, htokens⟩ := (lexes_quoted s).tokens
    obtain ⟨⟨token, start, stop⟩, rfl, rfl⟩ := exists_singleton_of_words hplaced
    exact ⟨start, stop, htokens⟩

/-- Both kinds of quotes, a line break, a negative number, a tuple of one item and the empty tuple. -/
def nested : Value := .tuple [.tuple [.str "it's"], .tuple [.int (-5), .str "a'\"\n"], .tuple []]

example : nested.repr = "((\"it's\",), (-5, 'a\\'\"\\n'), ())" := by cbv

theorem parse_repr_nested :
    nested.Printable ∧ ∃ f, Lambda.parse ("lambda: " ++ nested.repr) = .ok f ∧ f.eval [] = .ok nested := by
  have hprintable : nested.Printable := by simp [nested, Printable, AllPrintable]
  exact ⟨hprintable, (parse_repr nested hprintable).1⟩

end Value
end Millrace
