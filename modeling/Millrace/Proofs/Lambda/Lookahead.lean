import Millrace.Proofs.Lambda.Descent

/-!
# What the parser looks at

The loops of the parser take all they can get, so a phrase is read off the front only before tokens that do not go on
with it (`Follows`), and a loop is entered only where the phrase has a first token that may open an expression
(`Starts`).  A chain is derived from its right end and read from its left one; the two meet in `Chains`, which says
where the loop has come to.

## Main statements

* `starts_of_derives`: the first token of an expression.
* `chains_step`, `Chains.accepts`: chains of operators.
* `acceptsItems_cons`, `acceptsLinks_cons`: lists of items and chains of comparisons.
-/

namespace Millrace

theorem exists_append_of_words {taken : List PlacedToken} {v w : List Token} (h : words taken = v ++ w) :
    ∃ left right, taken = left ++ right ∧ words left = v ∧ words right = w :=
  List.map_eq_append_iff.1 h

theorem exists_cons_of_words {taken : List PlacedToken} {t : Token} {w : List Token} (h : words taken = t :: w) :
    ∃ first right, taken = first :: right ∧ first.token = t ∧ words right = w :=
  List.map_eq_cons_iff.1 h

theorem exists_singleton_of_words {taken : List PlacedToken} {t : Token} (h : words taken = [t]) :
    ∃ last, taken = [last] ∧ last.token = t :=
  List.map_eq_singleton_iff.1 h

theorem exists_snoc_of_words {taken : List PlacedToken} {t : Token} {w : List Token} (h : words taken = w ++ [t]) :
    ∃ left last, taken = left ++ [last] ∧ words left = w ∧ last.token = t := by
  obtain ⟨left, right, rfl, hleft, hright⟩ := exists_append_of_words h
  obtain ⟨last, rfl, hlast⟩ := exists_singleton_of_words hright
  exact ⟨left, last, rfl, hleft, hlast⟩

theorem length_of_words {taken : List PlacedToken} {w : List Token} (h : words taken = w) :
    taken.length = w.length := by
  rw [← h, words, List.length_map]

namespace Parser

open Grammar

/-! ### Tokens in front -/

section
variable {m : Mark} {t : PlacedToken} {ts : List PlacedToken} {name : String}

theorem headMark?_cons (ht : t.token = .mark m) (ts : List PlacedToken) : headMark? (t :: ts) = some m := by
  obtain ⟨token, start, stop⟩ := t
  cases ht
  rfl

theorem eat?_cons (ht : t.token = .mark m) (ts : List PlacedToken) : eat? m (t :: ts) = some ts := by
  rw [eat?, headMark?_cons ht, if_pos rfl, List.tail_cons]

theorem eat?_eq_none (h : headMark? ts ≠ some m) : eat? m ts = none := if_neg h

theorem expect_cons (ht : t.token = .mark m) (ts : List PlacedToken) : expect m (t :: ts) = .ok ts := if_pos ht

theorem ident_cons (ht : t.token = .ident name) (ts : List PlacedToken) :
    ident (t :: ts) = .ok ((name, t.start), ts) := by
  obtain ⟨token, start, stop⟩ := t
  cases ht
  rfl

end

/-! ### What may follow -/

/-- How loosely a mark binds to what stands in front of it.  The loosest marks do not go on with any expression. -/
def looseness : Mark → Nat
  | .leftParen | .dot => 0
  | .leftBracket => 1
  | .starStar => 2
  | .star | .slash | .slashSlash | .percent => 3
  | .plus | .minus => 4
  | .eqEq | .ne | .lt | .le | .gt | .ge => 5
  | .and => 6
  | .or => 7
  | .if => 8
  | _ => 9

/-- A mark in front of the tokens is at least so loose. -/
def Follows (n : Nat) (ts : List PlacedToken) : Prop := ∀ m, headMark? ts = some m → n ≤ looseness m

section
variable {k n : Nat} {m : Mark} {t : PlacedToken} {ts : List PlacedToken}

theorem follows_nil (n : Nat) : Follows n [] := fun _ h => nomatch h

theorem follows_cons (ht : t.token = .mark m) (hm : n ≤ looseness m) (ts : List PlacedToken) :
    Follows n (t :: ts) := by
  intro m' h
  rw [headMark?_cons ht] at h
  cases h
  exact hm

theorem Follows.mono (h : Follows n ts) (hkn : k ≤ n) : Follows k ts := fun m hm => Nat.le_trans hkn (h m hm)

theorem Follows.headMark?_ne (h : Follows n ts) (hm : looseness m < n) : headMark? ts ≠ some m :=
  fun hhead => absurd (h m hhead) (Nat.not_le_of_lt hm)

theorem Follows.eat? (h : Follows n ts) (hm : looseness m < n) : Parser.eat? m ts = none :=
  eat?_eq_none (h.headMark?_ne hm)

end

/-! ### What an expression starts with -/

/-- Which tokens an expression may start with: those of atoms, then signs, then `not`. -/
def opening : Token → Nat
  | .int _ | .float _ | .str _ | .ident _ | .mark .true | .mark .false | .mark .leftParen => 0
  | .mark .plus | .mark .minus => 1
  | .mark .not => 2
  | .mark _ => 3

/-- The first token is among those that may open an expression. -/
def Starts (n : Nat) (w : List Token) : Prop := ∃ t v, w = t :: v ∧ opening t ≤ n

/-- The tokens that a phrase starts with, for phrases that are one expression. -/
def opening? : Phrase → Option Nat
  | .expr _ | .disjunction _ | .conjunction _ | .negation _ => some 2
  | .comparison _ | .sum _ | .term _ | .factor _ => some 1
  | .power _ | .subscripted _ | .atom _ => some 0
  | .items _ | .links _ => none

section
variable {k n : Nat} {m : Mark} {v w : List Token} {taken rest : List PlacedToken} {params : List String}

theorem Starts.mono (h : Starts k w) (hkn : k ≤ n) : Starts n w := by
  obtain ⟨t, v, rfl, ht⟩ := h
  exact ⟨t, v, rfl, Nat.le_trans ht hkn⟩

theorem Starts.append (h : Starts n v) (w : List Token) : Starts n (v ++ w) := by
  obtain ⟨t, v, rfl, ht⟩ := h
  exact ⟨t, v ++ w, rfl, ht⟩

theorem Starts.length_pos (h : Starts n w) : 0 < w.length := by
  obtain ⟨t, v, rfl, -⟩ := h
  exact Nat.succ_pos _

theorem Starts.headMark?_ne (h : Starts n w) (hw : words taken = w) (hm : n < opening (.mark m)) :
    headMark? (taken ++ rest) ≠ some m := by
  obtain ⟨t, v, rfl, ht⟩ := h
  obtain ⟨first, others, rfl, hfirst, -⟩ := exists_cons_of_words hw
  intro hhead
  obtain ⟨t', more, hcons, ht'⟩ := headMark?_eq_some hhead
  cases hcons
  rw [← hfirst, ht'] at ht
  omega

theorem starts_of_derives {p : Phrase} (h : Derives params p w) (hn : opening? p = some n) : Starts n w := by
  induction h generalizing n with
  | noLinks | link | noItems | lastItem | item => cases hn
  | expr _ ih | disjunction _ ih | conjunction _ ih | sum _ ih | term _ ih | subscripted _ ih | power _ ih =>
    exact ih hn
  | comparison _ ih => exact ih hn
  | negation _ ih | factor _ ih =>
    cases hn
    exact (ih rfl).mono (by decide)
  | ifElse _ _ _ ih | or _ _ ih | and _ _ ih | compare _ _ ih | addOrSub _ _ _ ih | mulOrDiv _ _ _ ih | pow _ _ ih
  | index _ _ _ ih | field _ _ ih =>
    exact (ih hn).append _
  | int | float | str | yes | no | param | constant | mathConstant | call | mathCall | parens | unit | tuple =>
    cases hn
    exact ⟨_, _, rfl, Nat.le_refl 0⟩
  | minus | plus =>
    cases hn
    exact ⟨_, _, rfl, Nat.le_refl 1⟩
  | not =>
    cases hn
    exact ⟨_, _, rfl, Nat.le_refl 2⟩

end

/-! ### Chains and lists -/

/-- In front of tokens that do not go on with it, the tokens are read as the expression. -/
def Accepts (n : Nat) (p : Parser Expr) (e : Expr) (w : List Token) : Prop :=
  ∀ taken rest, words taken = w → Follows n rest → p (taken ++ rest) = .ok (e, rest)

/-- Having read the tokens, the loop of a chain stands at the expression, with turns enough for the rest. -/
def Chains (n : Nat) (op? : Mark → Option (Expr → Expr → Expr)) (operand : Parser Expr) (e : Expr) (w : List Token) :
    Prop :=
  ∀ taken rest, words taken = w → Follows n rest →
    ∃ bound, rest.length ≤ bound ∧ chain op? operand (taken ++ rest) = chainRest op? operand bound e rest

/-- In front of a right parenthesis, the tokens are read as the items. -/
def AcceptsItems (item : Parser Expr) (es : List Expr) (w : List Token) : Prop :=
  ∀ bound, w.length ≤ bound → ∀ taken rest, words taken = w → headMark? rest = some .rightParen →
    items item bound (taken ++ rest) = .ok (es, rest)

/-- In front of tokens that do not go on with a chain of comparisons, the tokens are read as its links. -/
def AcceptsLinks (operand : Parser Expr) (chained : List (CompareOp × Expr)) (w : List Token) : Prop :=
  ∀ bound, w.length ≤ bound → ∀ taken rest, words taken = w → Follows 6 rest →
    links operand bound (taken ++ rest) = .ok (chained, rest)

theorem ok_bind {ε α β : Type} (a : α) (f : α → Except ε β) : (Except.ok a >>= f) = f a := rfl

theorem accepts_cons {n : Nat} {p : Parser Expr} {e : Expr} {first : Token} {w : List Token}
    (h : ∀ t taken rest, t.token = first → words taken = w → Follows n rest →
      p (t :: (taken ++ rest)) = .ok (e, rest)) :
    Accepts n p e (first :: w) := by
  intro taken rest hwords hrest
  obtain ⟨t, others, rfl, ht, hothers⟩ := exists_cons_of_words hwords
  exact h t others rest ht hothers hrest

section
variable {n : Nat} {op? : Mark → Option (Expr → Expr → Expr)} {operand : Parser Expr} {a b e : Expr}
  {v w : List Token}

theorem chains_first (h : Accepts n operand e w) : Chains n op? operand e w := by
  intro taken rest hwords hrest
  refine ⟨rest.length, Nat.le_refl _, ?_⟩
  rw [chain, h taken rest hwords hrest]
  rfl

theorem chains_step {m : Mark} {op : Expr → Expr → Expr} (hop : op? m = some op) (hm : looseness m = n)
    (ha : Chains n op? operand a v) (hb : Accepts n operand b w) :
    Chains n op? operand (op a b) (v ++ .mark m :: w) := by
  intro taken rest hwords hrest
  obtain ⟨left, others, rfl, hleft, hothers⟩ := exists_append_of_words hwords
  obtain ⟨t, right, rfl, ht, hright⟩ := exists_cons_of_words hothers
  obtain ⟨bound, hbound, hchain⟩ := ha left (t :: (right ++ rest)) hleft (follows_cons ht (Nat.le_of_eq hm.symm) _)
  -- the loop has read `a` and stands in front of the operator, for which a turn is left
  obtain _ | bound := bound
  · cases hbound
  · have hlong : rest.length ≤ bound := by
      rw [List.length_cons, List.length_append] at hbound
      omega
    have hturn : (headMark? (t :: (right ++ rest))).bind op? = some op := by
      rw [headMark?_cons ht, Option.bind_some, hop]
    refine ⟨bound, hlong, ?_⟩
    rw [List.append_assoc, List.cons_append, hchain, chainRest.eq_def, hturn]
    simp only [List.tail_cons, hb right rest hright hrest, ok_bind]

theorem Chains.accepts (h : Chains n op? operand e w) (hop : ∀ m, n < looseness m → op? m = none) :
    Accepts (n + 1) (chain op? operand) e w := by
  intro taken rest hwords hrest
  obtain ⟨bound, -, hchain⟩ := h taken rest hwords (hrest.mono (Nat.le_succ n))
  have hend : (headMark? rest).bind op? = none :=
    Option.bind_eq_none_iff.2 fun m hm => hop m (hrest m hm)
  rw [hchain, chainRest.eq_def, hend]
  cases bound <;> rfl

end

section
variable {item : Parser Expr} {e : Expr} {es : List Expr} {v w : List Token}

theorem acceptsItems_nil : AcceptsItems item [] [] := by
  intro bound _ taken rest hwords hclose
  obtain rfl := List.map_eq_nil_iff.1 hwords
  rw [List.nil_append, items.eq_def, hclose]
  cases bound <;> rfl

/-- One turn of the loop over items: it does not stop, and reads an item. -/
theorem items_succ {bound : Nat} {taken rest : List PlacedToken} (hstart : Starts 2 v) (he : Accepts 9 item e v)
    (htaken : words taken = v) (hrest : Follows 9 rest) :
    items item (bound + 1) (taken ++ rest) =
      match eat? .comma rest with
      | none => .ok ([e], rest)
      | some rest => do
        let (others, rest) ← items item bound rest
        return (e :: others, rest) := by
  have hopen : headMark? (taken ++ rest) ≠ some .rightParen := hstart.headMark?_ne htaken (by decide)
  rw [items.eq_def]
  split
  · next hzero => cases hzero
  · next hclose _ => exact absurd hclose hopen
  · next hbound _ =>
    cases hbound
    rw [he taken rest htaken hrest]
    rfl

theorem acceptsItems_last (hstart : Starts 2 w) (he : Accepts 9 item e w) : AcceptsItems item [e] w := by
  intro bound hbound taken rest hwords hclose
  have hpos := hstart.length_pos
  obtain _ | bound := bound
  · omega
  · obtain ⟨t, after, rfl, ht⟩ := headMark?_eq_some hclose
    rw [items_succ hstart he hwords (follows_cons ht (by decide) after), eat?_eq_none]
    rw [hclose]
    decide

theorem acceptsItems_cons (hstart : Starts 2 v) (he : Accepts 9 item e v) (hes : AcceptsItems item es w) :
    AcceptsItems item (e :: es) (v ++ .mark .comma :: w) := by
  intro bound hbound taken rest hwords hclose
  obtain ⟨left, others, rfl, hleft, hothers⟩ := exists_append_of_words hwords
  obtain ⟨t, right, rfl, ht, hright⟩ := exists_cons_of_words hothers
  rw [List.length_append, List.length_cons] at hbound
  obtain _ | bound := bound
  · omega
  · rw [List.append_assoc, List.cons_append, items_succ hstart he hleft (follows_cons ht (by decide) _),
      eat?_cons ht]
    simp only [hes bound (by omega) right rest hright hclose, ok_bind]
    rfl

end

section
variable {operand : Parser Expr} {chained : List (CompareOp × Expr)} {e : Expr} {op : CompareOp} {v w : List Token}

theorem compareOp?_mark (op : CompareOp) : compareOp? op.mark = some op := by cases op <;> rfl

theorem looseness_compare (op : CompareOp) : looseness op.mark = 5 := by cases op <;> rfl

theorem compareOp?_eq_none {m : Mark} (h : 6 ≤ looseness m) : compareOp? m = none := by
  revert h
  cases m <;> decide

theorem acceptsLinks_nil : AcceptsLinks operand [] [] := by
  intro bound _ taken rest hwords hrest
  obtain rfl := List.map_eq_nil_iff.1 hwords
  have hend : (headMark? rest).bind compareOp? = none :=
    Option.bind_eq_none_iff.2 fun m hm => compareOp?_eq_none (hrest m hm)
  rw [List.nil_append, links.eq_def, hend]
  cases bound <;> rfl

/-- The links of a chain may follow its operands. -/
theorem follows_links {params : List String} {taken rest : List PlacedToken} (h : Derives params (.links chained) w)
    (hwords : words taken = w) (hrest : Follows 6 rest) : Follows 5 (taken ++ rest) := by
  cases h with
  | noLinks =>
    obtain rfl := List.map_eq_nil_iff.1 hwords
    exact hrest.mono (by decide)
  | link =>
    obtain ⟨t, others, rfl, ht, -⟩ := exists_cons_of_words hwords
    exact follows_cons ht (Nat.le_of_eq (looseness_compare _).symm) _

theorem acceptsLinks_cons {params : List String} (hlinks : Derives params (.links chained) w)
    (he : Accepts 5 operand e v) (hchained : AcceptsLinks operand chained w) :
    AcceptsLinks operand ((op, e) :: chained) (.mark op.mark :: (v ++ w)) := by
  intro bound hbound taken rest hwords hrest
  obtain ⟨t, others, rfl, ht, hothers⟩ := exists_cons_of_words hwords
  obtain ⟨left, right, rfl, hleft, hright⟩ := exists_append_of_words hothers
  rw [List.length_cons, List.length_append] at hbound
  obtain _ | bound := bound
  · omega
  · have hfirst := he left (right ++ rest) hleft (follows_links hlinks hright hrest)
    have hturn : (headMark? (t :: (left ++ (right ++ rest)))).bind compareOp? = some op := by
      rw [headMark?_cons ht, Option.bind_some, compareOp?_mark]
    rw [List.cons_append, List.append_assoc, links.eq_def, hturn]
    simp only [List.tail_cons, hfirst, hchained bound (by omega) right rest hright hrest, ok_bind]
    rfl

end

end Parser
end Millrace
