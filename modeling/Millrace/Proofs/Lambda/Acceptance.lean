import Millrace.Proofs.Lambda.Lookahead

/-!
# What the parser accepts

The converse of `Parser.derives_of_lambda`: what the grammar derives is read by the parser.  Each rule reads its
phrase if the rules do that it falls back on.  The bound of the levels never runs out, since a rule that refers to
itself has taken a token before, so every phrase is read within a bound of its length (`accepted_of_derives`).

## Main statements

* `accepted_of_derives`: all phrases.
* `lambda_of_derives`: lambdas.
* `lambda_eq_ok_iff`: the parser accepts the grammar and builds its trees.
-/

namespace Millrace
namespace Parser

open Grammar

/-! ### Atoms -/

section
variable {params : List String} {again : Level → Parser Expr} {e : Expr} {es : List Expr} {f : Builtin}
  {member text : String} {t t' : PlacedToken} {taken rest : List PlacedToken} {v w : List Token}

/-- A token that is an atom by itself. -/
theorem literal_accepts {first : Token}
    (h : ∀ start stop ts, atom params again (⟨first, start, stop⟩ :: ts) = .ok (e, ts)) :
    Accepts 1 (atom params again) e [first] := by
  refine accepts_cons fun t taken rest ht hwords hrest => ?_
  obtain ⟨token, start, stop⟩ := t
  obtain rfl : token = first := ht
  obtain rfl := List.map_eq_nil_iff.1 hwords
  exact h start stop rest

theorem atom_ident (ht : t.token = .ident text) (ts : List PlacedToken) :
    atom params again (t :: ts) = name params again text t.start ts := by
  rw [atom.eq_def]
  simp only [ht]

theorem atom_leftParen (ht : t.token = .mark .leftParen) (ts : List PlacedToken) :
    atom params again (t :: ts) = parenthesized again ts := by
  rw [atom.eq_def]
  simp only [ht]

theorem param_accepts {i : Nat} (h : params.idxOf? text = some i) :
    Accepts 1 (atom params again) (.param i) [.ident text] := by
  refine accepts_cons fun t taken rest ht hwords hrest => ?_
  obtain rfl := List.map_eq_nil_iff.1 hwords
  rw [atom_ident ht, name, h]
  rfl

/-- A bare name that is no parameter. -/
theorem name_global (h : text ∉ params) {ts : List PlacedToken} (hdot : headMark? ts ≠ some .dot) (position : Nat) :
    name params again text position ts = named again Builtin.global? text text position ts := by
  rw [name, List.idxOf?_eq_none_iff.2 h, eat?_eq_none hdot, ite_self]

/-- A member of the `math` module. -/
theorem name_member (h : "math" ∉ params) (ht : t.token = .mark .dot) (ht' : t'.token = .ident member)
    (ts : List PlacedToken) (position : Nat) :
    name params again "math" position (t :: t' :: ts) =
      named again Builtin.math? ("math." ++ member) member t'.start ts := by
  rw [name, List.idxOf?_eq_none_iff.2 h, if_pos rfl, eat?_cons ht]
  simp only [ident_cons ht', ok_bind]

theorem named_constant {x : Double} {ts : List PlacedToken} (hx : mathConstant? member = some x) (hts : Follows 1 ts)
    (function? : String → Option Builtin) (shown : String) (position : Nat) :
    named again function? shown member position ts = .ok (.const (.float x), ts) := by
  rw [named, if_neg (hts.headMark?_ne (by decide)), hx]

theorem named_call {function? : String → Option Builtin} (hf : function? member = some f)
    (hargs : AcceptsItems (again .expr) es w) (hcount : f.accepts es.length = true) (ht : t.token = .mark .leftParen)
    (htaken : words taken = w) (ht' : t'.token = .mark .rightParen) (shown : String) (position : Nat) :
    named again function? shown member position (t :: (taken ++ t' :: rest)) = .ok (.call f es, rest) := by
  have hlong : w.length ≤ (taken ++ t' :: rest).length + 1 := by
    rw [List.length_append, length_of_words htaken]
    omega
  have hread := hargs _ hlong taken (t' :: rest) htaken (headMark?_cons ht' rest)
  rw [named, if_pos (headMark?_cons ht _), hf]
  simp only [call, expect_cons ht, hread, expect_cons ht', ok_bind, hcount, if_pos]
  rfl

theorem constant_accepts {x : Double} (hname : text ∉ params) (hx : mathConstant? text = some x) :
    Accepts 1 (atom params again) (.const (.float x)) [.ident text] := by
  refine accepts_cons fun t taken rest ht hwords hrest => ?_
  obtain rfl := List.map_eq_nil_iff.1 hwords
  rw [List.nil_append, atom_ident ht, name_global hname (hrest.headMark?_ne (by decide)), named_constant hx hrest]

theorem mathConstant_accepts {x : Double} (hmath : "math" ∉ params) (hx : mathConstant? text = some x) :
    Accepts 1 (atom params again) (.const (.float x)) [.ident "math", .mark .dot, .ident text] := by
  refine accepts_cons fun t taken rest ht hwords hrest => ?_
  obtain ⟨dot, others, rfl, hdot, hothers⟩ := exists_cons_of_words hwords
  obtain ⟨t', rfl, ht'⟩ := exists_singleton_of_words hothers
  rw [atom_ident ht, List.cons_append, List.cons_append, name_member hmath hdot ht', List.nil_append,
    named_constant hx hrest]

theorem call_accepts (hname : text ∉ params) (hf : Builtin.global? text = some f)
    (hargs : AcceptsItems (again .expr) es w) (hcount : f.accepts es.length = true) :
    Accepts 1 (atom params again) (.call f es) (.ident text :: .mark .leftParen :: (w ++ [.mark .rightParen])) := by
  refine accepts_cons fun t taken rest ht hwords hrest => ?_
  obtain ⟨left, others, rfl, hleft, hothers⟩ := exists_cons_of_words hwords
  obtain ⟨inside, right, rfl, hinside, hright⟩ := exists_snoc_of_words hothers
  have hdot : headMark? (left :: (inside ++ right :: rest)) ≠ some .dot := by
    rw [headMark?_cons hleft]
    decide
  rw [atom_ident ht, List.cons_append, List.append_assoc, List.cons_append, List.nil_append, name_global hname hdot,
    named_call hf hargs hcount hleft hinside hright]

theorem mathCall_accepts (hmath : "math" ∉ params) (hf : Builtin.math? text = some f)
    (hargs : AcceptsItems (again .expr) es w) (hcount : f.accepts es.length = true) :
    Accepts 1 (atom params again) (.call f es)
      (.ident "math" :: .mark .dot :: .ident text :: .mark .leftParen :: (w ++ [.mark .rightParen])) := by
  refine accepts_cons fun t taken rest ht hwords hrest => ?_
  obtain ⟨dot, member, rfl, hdot, hmember⟩ := exists_cons_of_words hwords
  obtain ⟨t', after, rfl, ht', hafter⟩ := exists_cons_of_words hmember
  obtain ⟨left, others, rfl, hleft, hothers⟩ := exists_cons_of_words hafter
  obtain ⟨inside, right, rfl, hinside, hright⟩ := exists_snoc_of_words hothers
  simp only [List.cons_append, List.append_assoc, List.nil_append]
  rw [atom_ident ht, name_member hmath hdot ht', named_call hf hargs hcount hleft hinside hright]

theorem unit_accepts : Accepts 1 (atom params again) (.tuple []) [.mark .leftParen, .mark .rightParen] := by
  refine accepts_cons fun t taken rest ht hwords hrest => ?_
  obtain ⟨right, rfl, hright⟩ := exists_singleton_of_words hwords
  rw [atom_leftParen ht, parenthesized, List.cons_append, eat?_cons hright]
  rfl

/-- After a left parenthesis: the first expression has been read. -/
theorem parenthesized_eq (hstart : Starts 2 v) (he : Accepts 9 (again .expr) e v) (htaken : words taken = v)
    (hrest : Follows 9 rest) :
    parenthesized again (taken ++ rest) =
      match eat? .rightParen rest with
      | some ts => .ok (e, ts)
      | none => do
        let (others, ts) ← match eat? .comma rest with
          | some ts => items (again .expr) (ts.length + 1) ts
          | none => .ok ([], rest)
        let ts ← expect .rightParen ts
        return (.tuple (e :: others), ts) := by
  rw [parenthesized, eat?_eq_none (hstart.headMark?_ne htaken (by decide)), he taken rest htaken hrest]
  rfl

theorem parens_accepts (hstart : Starts 2 w) (he : Accepts 9 (again .expr) e w) :
    Accepts 1 (atom params again) e (.mark .leftParen :: (w ++ [.mark .rightParen])) := by
  refine accepts_cons fun t taken rest ht hwords hrest => ?_
  obtain ⟨inside, right, rfl, hinside, hright⟩ := exists_snoc_of_words hwords
  rw [atom_leftParen ht, List.append_assoc, List.cons_append, List.nil_append,
    parenthesized_eq hstart he hinside (follows_cons hright (by decide) rest), eat?_cons hright]

theorem tuple_accepts (hstart : Starts 2 v) (he : Accepts 9 (again .expr) e v)
    (hes : AcceptsItems (again .expr) es w) :
    Accepts 1 (atom params again) (.tuple (e :: es))
      (.mark .leftParen :: (v ++ .mark .comma :: (w ++ [.mark .rightParen]))) := by
  refine accepts_cons fun t taken rest ht hwords hrest => ?_
  obtain ⟨inside, others, rfl, hinside, hothers⟩ := exists_append_of_words hwords
  obtain ⟨comma, after, rfl, hcomma, hafter⟩ := exists_cons_of_words hothers
  obtain ⟨further, right, rfl, hfurther, hright⟩ := exists_snoc_of_words hafter
  have hlong : w.length ≤ (further ++ right :: rest).length + 1 := by
    rw [List.length_append, length_of_words hfurther]
    omega
  have hread := hes _ hlong further (right :: rest) hfurther (headMark?_cons hright rest)
  have hopen : eat? .rightParen (comma :: (further ++ right :: rest)) = none := by
    refine eat?_eq_none ?_
    rw [headMark?_cons hcomma]
    decide
  simp only [List.cons_append, List.append_assoc, List.nil_append]
  rw [atom_leftParen ht, parenthesized_eq hstart he hinside (follows_cons hcomma (by decide) _), hopen,
    eat?_cons hcomma]
  simp only [hread, expect_cons hright, ok_bind]
  rfl

end

/-! ### Subscripts -/

/-- Having read the tokens, the loop over subscripts stands at the expression, with turns enough for the rest. -/
def Subscripts (params : List String) (again : Level → Parser Expr) (e : Expr) (w : List Token) : Prop :=
  ∀ taken rest, words taken = w → Follows 1 rest →
    ∃ bound, rest.length ≤ bound ∧ postfixed params again (taken ++ rest) = postfixRest again bound e rest

section
variable {params : List String} {again : Level → Parser Expr} {e i : Expr} {v w : List Token}

theorem subscripts_atom (h : Accepts 1 (atom params again) e w) : Subscripts params again e w := by
  intro taken rest hwords hrest
  refine ⟨rest.length, Nat.le_refl _, ?_⟩
  rw [postfixed, h taken rest hwords hrest]
  rfl

theorem subscripts_step (he : Subscripts params again e v) (hi : Accepts 9 (again .expr) i w) :
    Subscripts params again (subscript e i) (v ++ .mark .leftBracket :: (w ++ [.mark .rightBracket])) := by
  intro taken rest hwords hrest
  obtain ⟨base, others, rfl, hbase, hothers⟩ := exists_append_of_words hwords
  obtain ⟨left, after, rfl, hleft, hafter⟩ := exists_cons_of_words hothers
  obtain ⟨inside, right, rfl, hinside, hright⟩ := exists_snoc_of_words hafter
  obtain ⟨bound, hbound, hread⟩ := he base (left :: (inside ++ right :: rest)) hbase
    (follows_cons hleft (by decide) _)
  -- as with chains: the loop has read the base and stands in front of the bracket
  obtain _ | bound := bound
  · cases hbound
  · have hlong : rest.length ≤ bound := by
      rw [List.length_cons, List.length_append, List.length_cons] at hbound
      omega
    obtain ⟨token, start, stop⟩ := left
    cases hleft
    refine ⟨bound, hlong, ?_⟩
    simp only [List.append_assoc, List.cons_append, List.nil_append]
    rw [hread, postfixRest]
    simp only [hi inside (right :: rest) hinside (follows_cons hright (by decide) rest), expect_cons hright, ok_bind]

theorem subscript_index (h : ∀ name, i ≠ .const (.str name)) (base : Expr) : subscript base i = .index base i := by
  unfold subscript
  split
  · next name => exact absurd rfl (h name)
  · rfl

theorem Subscripts.accepts (h : Subscripts params again e w) : Accepts 2 (postfixed params again) e w := by
  intro taken rest hwords hrest
  obtain ⟨bound, -, hread⟩ := h taken rest hwords (hrest.mono (by decide))
  have hbracket := hrest.headMark?_ne (m := .leftBracket) (by decide)
  have hparen := hrest.headMark?_ne (m := .leftParen) (by decide)
  have hdot := hrest.headMark?_ne (m := .dot) (by decide)
  rw [hread, postfixRest.eq_def]
  split
  · exact absurd rfl hbracket
  · exact absurd rfl hparen
  · exact absurd rfl hdot
  · rfl

end

/-! ### The rules -/

/-- The operators of each chain. -/
def termOp? : Mark → Option (Expr → Expr → Expr)
  | .star => some (.binary .mul)
  | .slash => some (.binary .div)
  | .slashSlash => some (.binary .floorDiv)
  | .percent => some (.binary .mod)
  | _ => none

def sumOp? : Mark → Option (Expr → Expr → Expr)
  | .plus => some (.binary .add)
  | .minus => some (.binary .sub)
  | _ => none

def andOp? : Mark → Option (Expr → Expr → Expr)
  | .and => some .and
  | _ => none

def orOp? : Mark → Option (Expr → Expr → Expr)
  | .or => some .or
  | _ => none

section
variable {params : List String} {again : Level → Parser Expr} {a b e cond : Expr} {u v w : List Token}

theorem accepts_term (h : Chains 3 termOp? (factor params again) e w) : Accepts 4 (term params again) e w :=
  h.accepts fun m => by cases m <;> decide

theorem accepts_sum (h : Chains 4 sumOp? (term params again) e w) : Accepts 5 (sum params again) e w :=
  h.accepts fun m => by cases m <;> decide

theorem accepts_conjunction (h : Chains 6 andOp? (negation params again) e w) :
    Accepts 7 (conjunction params again) e w :=
  h.accepts fun m => by cases m <;> decide

theorem accepts_disjunction (h : Chains 7 orOp? (conjunction params again) e w) :
    Accepts 8 (disjunction params again) e w :=
  h.accepts fun m => by cases m <;> decide

theorem chains_mulOrDiv {op : BinaryOp} (hop : op ∈ [.mul, .div, .floorDiv, .mod])
    (ha : Chains 3 termOp? (factor params again) a v) (hb : Accepts 3 (factor params again) b w) :
    Chains 3 termOp? (factor params again) (.binary op a b) (v ++ .mark op.mark :: w) := by
  simp only [List.mem_cons, List.not_mem_nil, or_false] at hop
  obtain rfl | rfl | rfl | rfl := hop <;> exact chains_step rfl rfl ha hb

theorem chains_addOrSub {op : BinaryOp} (hop : op ∈ [.add, .sub])
    (ha : Chains 4 sumOp? (term params again) a v) (hb : Accepts 4 (term params again) b w) :
    Chains 4 sumOp? (term params again) (.binary op a b) (v ++ .mark op.mark :: w) := by
  simp only [List.mem_cons, List.not_mem_nil, or_false] at hop
  obtain rfl | rfl := hop <;> exact chains_step rfl rfl ha hb

theorem power_accepts (h : Accepts 2 (postfixed params again) e w) : Accepts 3 (power params again) e w := by
  intro taken rest hwords hrest
  rw [power, h taken rest hwords (hrest.mono (by decide))]
  simp only [ok_bind, hrest.eat? (m := .starStar) (by decide)]
  rfl

theorem pow_accepts (ha : Accepts 2 (postfixed params again) a v) (hb : Accepts 3 (again .factor) b w) :
    Accepts 3 (power params again) (.binary .pow a b) (v ++ .mark .starStar :: w) := by
  intro taken rest hwords hrest
  obtain ⟨base, others, rfl, hbase, hothers⟩ := exists_append_of_words hwords
  obtain ⟨t, exponent, rfl, ht, hexponent⟩ := exists_cons_of_words hothers
  rw [List.append_assoc, List.cons_append, power, ha base _ hbase (follows_cons ht (by decide) _)]
  simp only [ok_bind, eat?_cons ht, hb exponent rest hexponent hrest]
  rfl

theorem factor_accepts (hstart : Starts 0 w) (h : Accepts 3 (power params again) e w) :
    Accepts 3 (factor params again) e w := by
  intro taken rest hwords hrest
  have hminus : headMark? (taken ++ rest) ≠ some .minus := hstart.headMark?_ne hwords (by decide)
  have hplus : headMark? (taken ++ rest) ≠ some .plus := hstart.headMark?_ne hwords (by decide)
  unfold factor
  split
  · next hhead => exact absurd hhead hminus
  · next hhead => exact absurd hhead hplus
  · exact h taken rest hwords hrest

/-- The grammar leaves no choice of what a minus sign makes of an expression. -/
theorem eq_negated {negative : Expr} (h : Negated e negative) : negative = negated e := by
  have hspec := negated_spec e
  generalize negated e = other at hspec
  -- a number has either a negation or none, so the two derivations are of one kind
  cases h with
  | number hv hneg =>
    cases hspec with
    | number hv' hneg' =>
      obtain ⟨rfl, -⟩ := hv
      obtain ⟨hconst, -⟩ := hv'
      cases hconst
      rw [hneg] at hneg'
      cases hneg'
      rfl
    | operator hnone => exact absurd hneg (hnone _ _ hv)
  | operator hnone =>
    cases hspec with
    | number hv hneg => exact absurd hneg (hnone _ _ hv)
    | operator => rfl

theorem minus_accepts {negative : Expr} (h : Accepts 3 (again .factor) e w) (hneg : Negated e negative) :
    Accepts 3 (factor params again) negative (.mark .minus :: w) := by
  refine accepts_cons fun t taken rest ht hwords hrest => ?_
  rw [factor, headMark?_cons ht, eq_negated hneg]
  simp only [List.tail_cons, h taken rest hwords hrest, ok_bind]
  rfl

theorem plus_accepts (h : Accepts 3 (again .factor) e w) :
    Accepts 3 (factor params again) (.unary .pos e) (.mark .plus :: w) := by
  refine accepts_cons fun t taken rest ht hwords hrest => ?_
  rw [factor, headMark?_cons ht]
  simp only [List.tail_cons, h taken rest hwords hrest, ok_bind]
  rfl

/-- A comparison: its first operand, then its links. -/
theorem comparison_eq {chained : List (CompareOp × Expr)} {taken rest : List PlacedToken}
    (hlinks : Derives params (.links chained) w) (he : Accepts 5 (sum params again) e v)
    (hchained : AcceptsLinks (sum params again) chained w) (hwords : words taken = v ++ w) (hrest : Follows 6 rest) :
    comparison params again (taken ++ rest) =
      match chained with
      | [] => .ok (e, rest)
      | chained => .ok (.compare e chained, rest) := by
  obtain ⟨first, others, rfl, hfirst, hothers⟩ := exists_append_of_words hwords
  have hlong : w.length ≤ (others ++ rest).length := by
    rw [List.length_append, length_of_words hothers]
    omega
  rw [List.append_assoc, comparison, he first _ hfirst (follows_links hlinks hothers hrest)]
  simp only [ok_bind, hchained _ hlong others rest hothers hrest]
  cases chained <;> rfl

theorem comparison_accepts (h : Accepts 5 (sum params again) e w) : Accepts 6 (comparison params again) e w := by
  intro taken rest hwords hrest
  rw [comparison_eq .noLinks h acceptsLinks_nil (hwords.trans (List.append_nil w).symm) hrest]

theorem compare_accepts {link : CompareOp × Expr} {chained : List (CompareOp × Expr)}
    (hlinks : Derives params (.links (link :: chained)) w) (he : Accepts 5 (sum params again) e v)
    (hchained : AcceptsLinks (sum params again) (link :: chained) w) :
    Accepts 6 (comparison params again) (.compare e (link :: chained)) (v ++ w) := by
  intro taken rest hwords hrest
  rw [comparison_eq hlinks he hchained hwords hrest]

theorem negation_accepts (hstart : Starts 1 w) (h : Accepts 6 (comparison params again) e w) :
    Accepts 6 (negation params again) e w := by
  intro taken rest hwords hrest
  rw [negation, eat?_eq_none (hstart.headMark?_ne hwords (by decide))]
  exact h taken rest hwords hrest

theorem not_accepts (h : Accepts 6 (again .negation) e w) :
    Accepts 6 (negation params again) (.unary .not e) (.mark .not :: w) := by
  refine accepts_cons fun t taken rest ht hwords hrest => ?_
  rw [negation, eat?_cons ht]
  simp only [h taken rest hwords hrest, ok_bind]
  rfl

theorem expr_accepts (h : Accepts 8 (disjunction params again) e w) : Accepts 9 (expr params again) e w := by
  intro taken rest hwords hrest
  rw [expr, h taken rest hwords (hrest.mono (by decide))]
  simp only [ok_bind, hrest.eat? (m := .if) (by decide)]
  rfl

theorem ifElse_accepts (ha : Accepts 8 (disjunction params again) a u)
    (hcond : Accepts 8 (disjunction params again) cond v) (hb : Accepts 9 (again .expr) b w) :
    Accepts 9 (expr params again) (.ifElse cond a b) (u ++ .mark .if :: (v ++ .mark .else :: w)) := by
  intro taken rest hwords hrest
  obtain ⟨yes, others, rfl, hyes, hothers⟩ := exists_append_of_words hwords
  obtain ⟨t, after, rfl, ht, hafter⟩ := exists_cons_of_words hothers
  obtain ⟨test, further, rfl, htest, hfurther⟩ := exists_append_of_words hafter
  obtain ⟨t', no, rfl, ht', hno⟩ := exists_cons_of_words hfurther
  simp only [List.cons_append, List.append_assoc]
  rw [expr, ha yes _ hyes (follows_cons ht (by decide) _)]
  simp only [ok_bind, eat?_cons ht, hcond test (t' :: (no ++ rest)) htest (follows_cons ht' (by decide) _),
    expect_cons ht', hb no rest hno hrest]
  rfl

end

/-! ### All phrases -/

/-- The parser reads a phrase, when it falls back on the levels within the bound. -/
def Accepted (params : List String) (bound : Nat) : Phrase → List Token → Prop
  | .expr e => Accepts 9 (expr params (level params bound)) e
  | .disjunction e => Chains 7 orOp? (conjunction params (level params bound)) e
  | .conjunction e => Chains 6 andOp? (negation params (level params bound)) e
  | .negation e => Accepts 6 (negation params (level params bound)) e
  | .comparison e => Accepts 6 (comparison params (level params bound)) e
  | .sum e => Chains 4 sumOp? (term params (level params bound)) e
  | .term e => Chains 3 termOp? (factor params (level params bound)) e
  | .factor e => Accepts 3 (factor params (level params bound)) e
  | .power e => Accepts 3 (power params (level params bound)) e
  | .subscripted e => Subscripts params (level params bound) e
  | .atom e => Accepts 1 (atom params (level params bound)) e
  | .items es => fun w => w.length < bound → AcceptsItems (level params bound .expr) es w
  | .links chained => AcceptsLinks (sum params (level params bound)) chained

/-- How loose a mark has to be that may follow the phrase of a level. -/
def Level.looseness : Level → Nat
  | expr => 9
  | negation => 6
  | factor => 3

section
variable {params : List String} {w : List Token} {e : Expr} {bound : Nat}

/-- A level within a larger bound than its phrase is long. -/
theorem level_accepts (l : Level) (h : ∀ bound, w.length ≤ bound → Accepted params bound (l.phrase e) w)
    (hbound : w.length < bound) : Accepts l.looseness (level params bound l) e w := by
  obtain _ | bound := bound
  · cases hbound
  · have hread := h bound (Nat.le_of_lt_succ hbound)
    cases l with
    | expr | negation | factor => exact hread

end

/-- The parser reads what the grammar derives, when the bound is at least the number of tokens. -/
theorem accepted_of_derives {params : List String} {p : Phrase} {w : List Token} (h : Derives params p w) :
    ∀ bound, w.length ≤ bound → Accepted params bound p w := by
  -- the rules for one more bound are those of the levels, so every level is asked for a shorter phrase than the rule
  induction h with
  | expr _ ih => exact fun bound hbound => expr_accepts (accepts_disjunction (ih bound hbound))
  | disjunction _ ih => exact fun bound hbound => chains_first (accepts_conjunction (ih bound hbound))
  | conjunction _ ih => exact fun bound hbound => chains_first (ih bound hbound)
  | negation hw ih => exact fun bound hbound => negation_accepts (starts_of_derives hw rfl) (ih bound hbound)
  | comparison _ ih => exact fun bound hbound => comparison_accepts (accepts_sum (ih bound hbound))
  | sum _ ih => exact fun bound hbound => chains_first (accepts_term (ih bound hbound))
  | term _ ih => exact fun bound hbound => chains_first (ih bound hbound)
  | factor hw ih => exact fun bound hbound => factor_accepts (starts_of_derives hw rfl) (ih bound hbound)
  | power _ ih => exact fun bound hbound => power_accepts (ih bound hbound).accepts
  | subscripted _ ih => exact fun bound hbound => subscripts_atom (ih bound hbound)
  | int | float | str | yes | no => exact fun bound _ => literal_accepts fun _ _ _ => rfl
  | param hname => exact fun bound _ => param_accepts hname
  | constant hname hx => exact fun bound _ => constant_accepts hname hx
  | mathConstant hmath hx => exact fun bound _ => mathConstant_accepts hmath hx
  | unit => exact fun bound _ => unit_accepts
  | noItems => exact fun bound _ _ => acceptsItems_nil
  | noLinks => exact fun bound _ => acceptsLinks_nil
  | lastItem hw ih =>
    -- only here a level is asked for a phrase of the same length, which is why items are shorter than the bound
    exact fun bound _ hshort => acceptsItems_last (starts_of_derives hw rfl) (level_accepts .expr ih hshort)
  | ifElse _ _ _ ihyes ihcond ihno =>
    intro bound hbound
    simp only [List.length_append, List.length_cons] at hbound
    exact ifElse_accepts (accepts_disjunction (ihyes bound (by omega)))
      (accepts_disjunction (ihcond bound (by omega))) (level_accepts .expr ihno (by omega))
  | or _ _ iha ihb =>
    intro bound hbound
    simp only [List.length_append, List.length_cons] at hbound
    exact chains_step rfl rfl (iha bound (by omega)) (accepts_conjunction (ihb bound (by omega)))
  | and _ _ iha ihb =>
    intro bound hbound
    simp only [List.length_append, List.length_cons] at hbound
    exact chains_step rfl rfl (iha bound (by omega)) (ihb bound (by omega))
  | not _ ih =>
    intro bound hbound
    exact not_accepts (level_accepts .negation ih hbound)
  | compare _ hlinks ihfirst ihlinks =>
    intro bound hbound
    simp only [List.length_append] at hbound
    exact compare_accepts hlinks (accepts_sum (ihfirst bound (by omega))) (ihlinks bound (by omega))
  | link _ hlinks ihe ihlinks =>
    intro bound hbound
    simp only [List.length_append, List.length_cons] at hbound
    exact acceptsLinks_cons hlinks (accepts_sum (ihe bound (by omega))) (ihlinks bound (by omega))
  | addOrSub hop _ _ iha ihb =>
    intro bound hbound
    simp only [List.length_append, List.length_cons] at hbound
    exact chains_addOrSub hop (iha bound (by omega)) (accepts_term (ihb bound (by omega)))
  | mulOrDiv hop _ _ iha ihb =>
    intro bound hbound
    simp only [List.length_append, List.length_cons] at hbound
    exact chains_mulOrDiv hop (iha bound (by omega)) (ihb bound (by omega))
  | minus _ hneg ih =>
    intro bound hbound
    exact minus_accepts (level_accepts .factor ih hbound) hneg
  | plus _ ih =>
    intro bound hbound
    exact plus_accepts (level_accepts .factor ih hbound)
  | pow _ _ iha ihb =>
    intro bound hbound
    simp only [List.length_append, List.length_cons] at hbound
    exact pow_accepts (iha bound (by omega)).accepts (level_accepts .factor ihb (by omega))
  | @index base i v w _ _ hi ihbase ihi =>
    intro bound hbound
    simp only [List.length_append, List.length_cons] at hbound
    have hstep := subscripts_step (ihbase bound (by omega)) (level_accepts .expr ihi (by omega))
    rwa [subscript_index hi] at hstep
  | field _ _ ihbase ihi =>
    intro bound hbound
    simp only [List.length_append, List.length_cons] at hbound
    exact subscripts_step (ihbase bound (by omega)) (level_accepts .expr ihi (by omega))
  | call hname hf _ hcount ih =>
    intro bound hbound
    simp only [List.length_append, List.length_cons] at hbound
    exact call_accepts hname hf (ih bound (by omega) (by omega)) hcount
  | mathCall hmath hf _ hcount ih =>
    intro bound hbound
    simp only [List.length_append, List.length_cons] at hbound
    exact mathCall_accepts hmath hf (ih bound (by omega) (by omega)) hcount
  | parens hw ih =>
    intro bound hbound
    simp only [List.length_append, List.length_cons] at hbound
    exact parens_accepts (starts_of_derives hw rfl) (level_accepts .expr ih (by omega))
  | tuple hfirst _ ihfirst ihothers =>
    intro bound hbound
    simp only [List.length_append, List.length_cons] at hbound
    exact tuple_accepts (starts_of_derives hfirst rfl) (level_accepts .expr ihfirst (by omega))
      (ihothers bound (by omega) (by omega))
  | item hfirst _ ihfirst ihothers =>
    intro bound hbound hshort
    simp only [List.length_append, List.length_cons] at hbound hshort
    exact acceptsItems_cons (starts_of_derives hfirst rfl) (level_accepts .expr ihfirst (by omega))
      (ihothers bound (by omega) (by omega))

/-! ### Lambdas -/

theorem not_mem_of_nodup_append_cons {seen others : List String} {name : String}
    (h : (seen ++ name :: others).Nodup) : name ∉ seen :=
  fun hmem => List.disjoint_of_nodup_append h hmem (List.mem_cons_self ..)

/-- One turn of the loop over parameter names, in front of a new name. -/
theorem parameters_succ {seen : List String} {name : String} {t : PlacedToken} (ht : t.token = .ident name)
    (hnew : name ∉ seen) (bound : Nat) (ts : List PlacedToken) :
    parameters seen (bound + 1) (t :: ts) =
      match eat? .comma ts with
      | some rest => parameters (seen ++ [name]) bound rest
      | none => .ok (seen ++ [name], ts) := by
  obtain ⟨token, start, stop⟩ := t
  cases ht
  have hcontains : seen.contains name = false := by simpa using hnew
  simp only [parameters, headMark?, ident, ok_bind, hcontains]
  rfl

theorem parameters_accepts {names : List String} {w : List Token} (h : DerivesNames names w) :
    ∀ {seen : List String} {bound : Nat} {taken rest : List PlacedToken}, (seen ++ names).Nodup → w.length < bound →
      words taken = w → headMark? rest = some .colon →
      parameters seen bound (taken ++ rest) = .ok (seen ++ names, rest) := by
  induction h with
  | none =>
    intro seen bound taken rest _ _ hwords hcolon
    obtain rfl := List.map_eq_nil_iff.1 hwords
    obtain _ | bound := bound
    · rw [parameters, List.append_nil, List.nil_append]
    · rw [List.append_nil, List.nil_append]
      exact if_pos hcolon
  | last name =>
    intro seen bound taken rest hnodup hbound hwords hcolon
    obtain ⟨t, rfl, ht⟩ := exists_singleton_of_words hwords
    obtain _ | bound := bound
    · cases hbound
    · rw [List.cons_append, List.nil_append, parameters_succ ht (not_mem_of_nodup_append_cons hnodup),
        eat?_eq_none (by rw [hcolon]; decide)]
  | @next name others w _ ih =>
    intro seen bound taken rest hnodup hbound hwords hcolon
    obtain ⟨t, after, rfl, ht, hafter⟩ := exists_cons_of_words hwords
    obtain ⟨comma, further, rfl, hcomma, hfurther⟩ := exists_cons_of_words hafter
    obtain _ | bound := bound
    · cases hbound
    · have hnodup' : (seen ++ [name] ++ others).Nodup := by rwa [List.append_assoc]
      simp only [List.length_cons] at hbound
      rw [List.cons_append, List.cons_append, parameters_succ ht (not_mem_of_nodup_append_cons hnodup),
        eat?_cons hcomma]
      simp only [ih hnodup' (by omega : w.length < bound) hfurther hcolon, List.append_assoc, List.cons_append,
        List.nil_append]

/-- The parser reads what the grammar derives as a lambda. -/
theorem lambda_of_derives {ts : List PlacedToken} {params : List String} {body : Expr}
    (h : DerivesLambda params body (words ts)) : lambda ts = .ok (params, body) := by
  generalize hwords : words ts = w at h
  cases h with
  | lambda hnames hnodup hbody =>
    obtain ⟨t, others, rfl, ht, hothers⟩ := exists_cons_of_words hwords
    obtain ⟨names, after, rfl, hread, hafter⟩ := exists_append_of_words hothers
    obtain ⟨colon, taken, rfl, hcolon, htaken⟩ := exists_cons_of_words hafter
    have hparams : parameters [] ((names ++ colon :: taken).length + 1) (names ++ colon :: taken) =
        .ok (params, colon :: taken) := by
      refine parameters_accepts hnames hnodup ?_ hread (headMark?_cons hcolon taken)
      rw [List.length_append, length_of_words hread]
      omega
    have hlevel : level params (taken.length + 1) .expr taken = .ok (body, []) := by
      have hshort := Nat.lt_succ_self taken.length
      nth_rewrite 1 [length_of_words htaken] at hshort
      have hall := level_accepts .expr (accepted_of_derives hbody) hshort taken [] htaken (follows_nil 9)
      rwa [List.append_nil] at hall
    rw [lambda, expect_cons ht]
    simp only [ok_bind, hparams, expect_cons hcolon, hlevel]
    rfl

/-- The parser accepts exactly the grammar and gives the tree that its tokens derive, in which a negated number has
the value of its negation. -/
theorem lambda_eq_ok_iff (ts : List PlacedToken) (params : List String) (body : Expr) :
    (lambda ts = .ok (params, body) ↔ DerivesLambda params body (words ts)) ∧
      ∀ e negative, Negated e negative → ∀ args, negative.eval args = (Expr.unary .neg e).eval args :=
  ⟨⟨derives_of_lambda, lambda_of_derives⟩, fun _ _ h args => h.eval args⟩

/-- In `lambda x: x ** -2 - 3 - x` the minus sign before `2` makes a number, and the others group to the left. -/
theorem lambda_eq_ok_iff_grouping :
    DerivesLambda ["x"]
        (.binary .sub (.binary .sub (.binary .pow (.param 0) (.const (.int (-2)))) (.const (.int 3))) (.param 0))
        [.mark .lambda, .ident "x", .mark .colon, .ident "x", .mark .starStar, .mark .minus, .int 2, .mark .minus,
          .int 3, .mark .minus, .ident "x"] ∧
      (Expr.const (.int (-2))).eval [] = (Expr.unary .neg (.const (.int 2))).eval [] :=
  let holds := lambda_eq_ok_iff
    [⟨.mark .lambda, 0, 6⟩, ⟨.ident "x", 7, 8⟩, ⟨.mark .colon, 8, 9⟩, ⟨.ident "x", 10, 11⟩, ⟨.mark .starStar, 12, 14⟩,
      ⟨.mark .minus, 15, 16⟩, ⟨.int 2, 16, 17⟩, ⟨.mark .minus, 18, 19⟩, ⟨.int 3, 20, 21⟩, ⟨.mark .minus, 22, 23⟩,
      ⟨.ident "x", 24, 25⟩] _ _
  ⟨holds.1.1 rfl, holds.2 _ _ (negated_spec (.const (.int 2))) []⟩

end Parser
end Millrace
