import Mathlib.Data.List.Nodup
import Millrace.Lambda.Parser
import Millrace.Proofs.Lambda.Grammar
import Millrace.Proofs.Results

/-!
# What the parser reads

The parser takes tokens off the front, and those it takes are what the grammar derives the tree from that it gives
(`Reads`).  Every rule does so provided that the rules do which it falls back on, so all levels do by induction on
their bound (`level_reads`), and the tokens of a parsed lambda derive it (`derives_of_lambda`).

## Main statements

* `chain_reads`: chains group to the left.
* `level_reads`: the rules.
* `derives_of_lambda`: lambdas.
-/

namespace Millrace

/-- What tokens are, without their places. -/
def words (ts : List PlacedToken) : List Token := ts.map (·.token)

section
variable (t : PlacedToken) (ts us : List PlacedToken)

theorem words_nil : words [] = [] := rfl

theorem words_cons : words (t :: ts) = t.token :: words ts := rfl

theorem words_append : words (ts ++ us) = words ts ++ words us := List.map_append

end

/-! ### Negated numbers -/

theorem Whole.neg_eq_ok_iff {n m : Int64} : Whole.neg n = .ok m ↔ n ≠ Int64.minValue ∧ m = -n := by
  have hlow := Int64.le_toInt n
  have hhigh := Int64.toInt_lt n
  unfold Whole.neg Whole.checked Whole.ofInt? Whole.least Whole.greatest
  by_cases hn : n = Int64.minValue
  · subst hn
    simp [fault]
  · have hne : n.toInt ≠ -9223372036854775808 := by
      intro h
      apply hn
      rw [← Int64.toInt_inj, h]
      rfl
    have hrange : -9223372036854775808 ≤ -n.toInt ∧ -n.toInt ≤ 9223372036854775807 := by omega
    rw [if_pos hrange]
    simp [hn, eq_comm]

namespace Parser

open Grammar

theorem negated_const_int (n : Int64) : Negated (.const (.int n)) (negated (.const (.int n))) := by
  unfold negated
  dsimp only
  split
  · next hmin =>
    refine .operator fun v negative hv hneg => ?_
    obtain ⟨h, -⟩ := hv
    cases h
    obtain ⟨m, hm, -⟩ := map_eq_ok hneg
    exact (Whole.neg_eq_ok_iff.1 hm).1 hmin
  · next hmin =>
    have hneg : Whole.neg n = .ok (-n) := Whole.neg_eq_ok_iff.2 ⟨hmin, rfl⟩
    refine .number ⟨rfl, List.mem_cons_self ..⟩ ?_
    rw [UnaryOp.apply, hneg]
    rfl

/-- The parser negates numbers as the grammar says. -/
theorem negated_spec (e : Expr) : Negated e (negated e) := by
  have hother (h : ∀ v, ¬ IsNumber e v) : Negated e (.unary .neg e) := .operator fun v _ hv => absurd hv (h v)
  cases e with
  | const v =>
    cases v with
    | int n => exact negated_const_int n
    | float x => exact .number ⟨rfl, List.mem_cons_of_mem _ (List.mem_cons_self ..)⟩ rfl
    | bool b | str s | tuple items =>
      refine hother fun v hv => ?_
      obtain ⟨h, htag⟩ := hv
      cases h
      simp [Value.tag] at htag
  | _ =>
    refine hother fun v hv => ?_
    obtain ⟨h, -⟩ := hv
    cases h

/-! ### Single tokens -/

section
variable {m : Mark} {ts rest : List PlacedToken} {name : String} {position : Nat}

theorem headMark?_eq_some (h : headMark? ts = some m) :
    ∃ t rest, ts = t :: rest ∧ t.token = .mark m := by
  unfold headMark? at h
  split at h
  · cases h
    exact ⟨_, _, rfl, rfl⟩
  · cases h

theorem eat?_eq_some (h : eat? m ts = some rest) : ∃ t, ts = t :: rest ∧ t.token = .mark m := by
  unfold eat? at h
  split at h
  · next hhead =>
    obtain ⟨t, rest', rfl, ht⟩ := headMark?_eq_some hhead
    cases h
    exact ⟨t, rfl, ht⟩
  · cases h

theorem expect_eq_ok (h : expect m ts = .ok rest) : ∃ t, ts = t :: rest ∧ t.token = .mark m := by
  unfold expect at h
  split at h
  · split at h
    · next ht =>
      cases h
      exact ⟨_, rfl, ht⟩
    · cases h
  · cases h

theorem ident_eq_ok (h : ident ts = .ok ((name, position), rest)) :
    ∃ t, ts = t :: rest ∧ t.token = .ident name := by
  unfold ident at h
  split at h
  · cases h
    exact ⟨_, rfl, rfl⟩
  · cases h
  · cases h

end

/-! ### Chains and lists -/

/-- What the parser takes off the front derives what it gives. -/
def Reads {α : Type} (D : α → List Token → Prop) (p : Parser α) : Prop :=
  ∀ ts x rest, p ts = .ok (x, rest) → ∃ taken, ts = taken ++ rest ∧ D x (words taken)

section
variable {op? : Mark → Option (Expr → Expr → Expr)} {operand : Parser Expr} {D E : Expr → List Token → Prop}

/-- What derives something derives it with nothing taken. -/
theorem exists_taken_nil {P : List Token → Prop} {v : List Token} (h : P v) (ts : List PlacedToken) :
    ∃ taken, ts = taken ++ ts ∧ P (v ++ words taken) :=
  ⟨[], rfl, by rw [words_nil, List.append_nil]; exact h⟩

theorem chainRest_reads (hoperand : Reads E operand)
    (hstep : ∀ m op a b v w, op? m = some op → D a v → E b w → D (op a b) (v ++ .mark m :: w))
    (bound : Nat) {left : Expr} {v : List Token} (hleft : D left v) {ts rest : List PlacedToken} {e : Expr}
    (h : chainRest op? operand bound left ts = .ok (e, rest)) :
    ∃ taken, ts = taken ++ rest ∧ D e (v ++ words taken) := by
  -- each turn makes the tree read so far the left operand of the next operator
  induction bound generalizing left v ts with
  | zero =>
    cases h
    exact exists_taken_nil hleft rest
  | succ bound ih =>
    unfold chainRest at h
    split at h
    · next m op hnum hop =>
      cases hnum
      obtain ⟨mark, hmark, hmarks⟩ := Option.bind_eq_some_iff.1 hop
      obtain ⟨t, more, rfl, ht⟩ := headMark?_eq_some hmark
      obtain ⟨⟨right, after⟩, hright, hrest⟩ := bind_eq_ok h
      obtain ⟨taken, htaken, hE⟩ := hoperand _ _ _ hright
      obtain ⟨others, rfl, hD⟩ := ih (hstep mark op _ _ _ _ hmarks hleft hE) hrest
      refine ⟨t :: (taken ++ others), ?_, ?_⟩
      · rw [List.cons_append, List.append_assoc, ← htaken, List.tail_cons]
      · have hwords : words (t :: (taken ++ others)) = .mark mark :: (words taken ++ words others) := by
          simp only [words_cons, words_append, ht]
        rw [hwords]
        simpa only [List.append_assoc, List.cons_append] using hD
    · cases h
      exact exists_taken_nil hleft rest

/-- A chain derives the tree of its operators, grouped to the left. -/
theorem chain_reads (hoperand : Reads E operand) (hfirst : ∀ e w, E e w → D e w)
    (hstep : ∀ m op a b v w, op? m = some op → D a v → E b w → D (op a b) (v ++ .mark m :: w)) :
    Reads D (chain op? operand) := by
  intro ts e rest h
  obtain ⟨⟨first, more⟩, hread, hrest⟩ := bind_eq_ok h
  obtain ⟨taken, rfl, hE⟩ := hoperand _ _ _ hread
  obtain ⟨others, rfl, hD⟩ := chainRest_reads hoperand hstep _ (hfirst _ _ hE) hrest
  exact ⟨taken ++ others, (List.append_assoc ..).symm, by rw [words_append]; exact hD⟩

end

section
variable {params : List String} {again : Level → Parser Expr} {item : Parser Expr}

theorem items_reads (hitem : Reads (fun e => Derives params (.expr e)) item) (bound : Nat) :
    Reads (fun es => Derives params (.items es)) (items item bound) := by
  induction bound with
  | zero =>
    intro ts es rest h
    cases h
    exact ⟨[], rfl, .noItems⟩
  | succ bound ih =>
    intro ts es rest h
    unfold items at h
    split at h
    · next hnum => cases hnum
    · cases h
      exact ⟨[], rfl, .noItems⟩
    · next hnum _ =>
      cases hnum
      obtain ⟨⟨first, more⟩, hfirst, hrest⟩ := bind_eq_ok h
      obtain ⟨taken, rfl, hE⟩ := hitem _ _ _ hfirst
      dsimp only at hrest
      split at hrest
      · cases hrest
        exact ⟨taken, rfl, .lastItem hE⟩
      · next after hcomma =>
        obtain ⟨t, rfl, ht⟩ := eat?_eq_some hcomma
        obtain ⟨⟨others, last⟩, hothers, hresult⟩ := bind_eq_ok hrest
        cases hresult
        obtain ⟨further, rfl, hD⟩ := ih _ _ _ hothers
        refine ⟨taken ++ t :: further, by rw [List.append_assoc, List.cons_append], ?_⟩
        have hwords : words (taken ++ t :: further) = words taken ++ .mark .comma :: words further := by
          simp only [words_cons, words_append, ht]
        rw [hwords]
        exact .item hE hD

theorem compareOp?_eq_some {m : Mark} {op : CompareOp} (h : compareOp? m = some op) : m = op.mark := by
  cases m with
  | eqEq | ne | lt | le | gt | ge =>
    cases h
    rfl
  | _ => cases h

theorem links_reads {operand : Parser Expr} (hoperand : Reads (fun e => Derives params (.sum e)) operand)
    (bound : Nat) : Reads (fun ls => Derives params (.links ls)) (links operand bound) := by
  induction bound with
  | zero =>
    intro ts ls rest h
    cases h
    exact ⟨[], rfl, .noLinks⟩
  | succ bound ih =>
    intro ts ls rest h
    unfold links at h
    split at h
    · next b op hnum hop =>
      cases hnum
      obtain ⟨mark, hmark, hmarks⟩ := Option.bind_eq_some_iff.1 hop
      cases compareOp?_eq_some hmarks
      obtain ⟨t, more, rfl, ht⟩ := headMark?_eq_some hmark
      obtain ⟨⟨e, after⟩, hread, hrest⟩ := bind_eq_ok h
      obtain ⟨taken, htaken, hE⟩ := hoperand _ _ _ hread
      obtain ⟨⟨others, last⟩, hothers, hresult⟩ := bind_eq_ok hrest
      cases hresult
      obtain ⟨further, rfl, hD⟩ := ih _ _ _ hothers
      refine ⟨t :: (taken ++ further), ?_, ?_⟩
      · rw [List.cons_append, List.append_assoc, ← htaken, List.tail_cons]
      · have hwords : words (t :: (taken ++ further)) = .mark op.mark :: (words taken ++ words further) := by
          simp only [words_cons, words_append, ht]
        rw [hwords]
        exact .link hE hD
    · cases h
      exact ⟨[], rfl, .noLinks⟩

end

/-! ### The rules -/

/-- The phrase that a rule reads which refers to itself. -/
def Level.phrase : Level → Expr → Phrase
  | expr => .expr
  | negation => .negation
  | factor => .factor

section
variable {params : List String} {again : Level → Parser Expr} {name shown : String} {position : Nat}

/-- The rules that are fallen back on read their phrases. -/
def AgainReads (params : List String) (again : Level → Parser Expr) : Prop :=
  ∀ l, Reads (fun e => Derives params (l.phrase e)) (again l)

theorem call_reads (hagain : AgainReads params again) {f : Builtin} {ts rest : List PlacedToken} {e : Expr}
    (h : call again f position ts = .ok (e, rest)) :
    ∃ args taken, e = .call f args ∧ f.accepts args.length = true ∧ ts = taken ++ rest ∧
      ∃ w, words taken = .mark .leftParen :: (w ++ [.mark .rightParen]) ∧ Derives params (.items args) w := by
  obtain ⟨after, hopen, hargs⟩ := bind_eq_ok h
  obtain ⟨t, rfl, ht⟩ := expect_eq_ok hopen
  obtain ⟨⟨args, more⟩, hitems, hrest⟩ := bind_eq_ok hargs
  obtain ⟨taken, rfl, hD⟩ := items_reads (hagain .expr) _ _ _ _ hitems
  obtain ⟨last, hclose, hcall⟩ := bind_eq_ok hrest
  obtain ⟨t', rfl, ht'⟩ := expect_eq_ok hclose
  split at hcall
  · next haccepts =>
    cases hcall
    refine ⟨args, t :: (taken ++ [t']), rfl, haccepts, by simp, words taken, ?_, hD⟩
    simp only [words_cons, words_append, words_nil, ht, ht']
  · cases hcall

/-- A name stands for a called function or a constant. -/
theorem named_reads (hagain : AgainReads params again) {function? : String → Option Builtin}
    {ts rest : List PlacedToken} {e : Expr} (h : named again function? shown name position ts = .ok (e, rest)) :
    (∃ x, mathConstant? name = some x ∧ e = .const (.float x) ∧ rest = ts) ∨
      ∃ f args taken, function? name = some f ∧ e = .call f args ∧ f.accepts args.length = true ∧
        ts = taken ++ rest ∧
        ∃ w, words taken = .mark .leftParen :: (w ++ [.mark .rightParen]) ∧ Derives params (.items args) w := by
  unfold named at h
  split at h
  · split at h
    · next f hf =>
      obtain ⟨args, taken, hcall⟩ := call_reads hagain h
      exact Or.inr ⟨f, args, taken, hf, hcall⟩
    · cases h
  · split at h
    · next x hx =>
      cases h
      exact Or.inl ⟨x, hx, rfl, rfl⟩
    · cases h

/-- A name with what follows it derives what it stands for. -/
theorem name_reads (hagain : AgainReads params again) {ts rest : List PlacedToken} {e : Expr}
    (h : Parser.name params again name position ts = .ok (e, rest)) :
    ∃ taken, ts = taken ++ rest ∧ Derives params (.atom e) (.ident name :: words taken) := by
  unfold Parser.name at h
  split at h
  · next i hi =>
    cases h
    exact ⟨[], rfl, .param hi⟩
  · next hi =>
    have hparam : name ∉ params := List.idxOf?_eq_none_iff.1 hi
    split at h
    · next after hdot =>
      split at hdot
      · next hname =>
        subst hname
        obtain ⟨t, rfl, ht⟩ := eat?_eq_some hdot
        obtain ⟨⟨⟨member, place⟩, more⟩, hident, hnamed⟩ := bind_eq_ok h
        obtain ⟨t', rfl, ht'⟩ := ident_eq_ok hident
        rcases named_reads hagain hnamed with ⟨x, hx, rfl, rfl⟩ | ⟨f, args, taken, hf, rfl, haccepts, rfl, w, hw, hD⟩
        · refine ⟨[t, t'], rfl, ?_⟩
          simp only [words_cons, words_nil, ht, ht']
          exact .mathConstant hparam hx
        · refine ⟨t :: t' :: taken, rfl, ?_⟩
          simp only [words_cons, ht, ht'] at hw ⊢
          rw [hw]
          exact .mathCall hparam hf hD haccepts
      · cases hdot
    · rcases named_reads hagain h with ⟨x, hx, rfl, rfl⟩ | ⟨f, args, taken, hf, rfl, haccepts, rfl, w, hw, hD⟩
      · exact ⟨[], rfl, .constant hparam hx⟩
      · refine ⟨taken, rfl, ?_⟩
        rw [hw]
        exact .call hparam hf hD haccepts

/-- What stands in parentheses. -/
theorem parenthesized_reads (hagain : AgainReads params again) {ts rest : List PlacedToken} {e : Expr}
    (h : parenthesized again ts = .ok (e, rest)) :
    ∃ taken, ts = taken ++ rest ∧ Derives params (.atom e) (.mark .leftParen :: words taken) := by
  unfold parenthesized at h
  split at h
  · next after hclose =>
    cases h
    obtain ⟨t, rfl, ht⟩ := eat?_eq_some hclose
    refine ⟨[t], rfl, ?_⟩
    simp only [words_cons, words_nil, ht]
    exact .unit
  · obtain ⟨⟨first, more⟩, hfirst, hrest⟩ := bind_eq_ok h
    obtain ⟨taken, rfl, hE⟩ := hagain .expr _ _ _ hfirst
    dsimp only at hrest
    split at hrest
    · next after hclose =>
      cases hrest
      obtain ⟨t, rfl, ht⟩ := eat?_eq_some hclose
      refine ⟨taken ++ [t], by simp, ?_⟩
      simp only [words_cons, words_append, words_nil, ht]
      exact .parens hE
    · next hopen =>
      split at hrest
      · next inner hcomma =>
        obtain ⟨t, rfl, ht⟩ := eat?_eq_some hcomma
        obtain ⟨⟨others, after⟩, hothers, hlast⟩ := bind_eq_ok hrest
        obtain ⟨further, rfl, hD⟩ := items_reads (hagain .expr) _ _ _ _ hothers
        obtain ⟨last, hclose, hresult⟩ := bind_eq_ok hlast
        obtain ⟨t', rfl, ht'⟩ := expect_eq_ok hclose
        cases hresult
        refine ⟨taken ++ t :: (further ++ [t']), by simp, ?_⟩
        simp only [words_cons, words_append, words_nil, ht, ht']
        exact .tuple hE hD
      · -- without a comma the parenthesis would have been closed before
        obtain ⟨⟨others, after⟩, hnothing, hlast⟩ := bind_eq_ok hrest
        cases hnothing
        obtain ⟨last, hclose, -⟩ := bind_eq_ok hlast
        obtain ⟨⟨token, start, stop⟩, rfl, ht'⟩ := expect_eq_ok hclose
        cases ht'
        exact absurd hopen (by simp [eat?, headMark?])

theorem atom_reads (hagain : AgainReads params again) :
    Reads (fun e => Derives params (.atom e)) (atom params again) := by
  intro ts e rest h
  unfold atom at h
  split at h
  · cases h
  · next t ts =>
    obtain ⟨token, start, stop⟩ := t
    dsimp only at h
    split at h
    · cases h
      exact ⟨[_], rfl, .int _⟩
    · cases h
      exact ⟨[_], rfl, .float _⟩
    · cases h
      exact ⟨[_], rfl, .str _⟩
    · cases h
      exact ⟨[_], rfl, .yes⟩
    · cases h
      exact ⟨[_], rfl, .no⟩
    · obtain ⟨taken, rfl, hD⟩ := parenthesized_reads hagain h
      exact ⟨_ :: taken, rfl, hD⟩
    · obtain ⟨taken, rfl, hD⟩ := name_reads hagain h
      exact ⟨_ :: taken, rfl, hD⟩
    · cases h

theorem subscript_derives {base i : Expr} {v w : List Token} (hbase : Derives params (.subscripted base) v)
    (hi : Derives params (.expr i) w) :
    Derives params (.subscripted (subscript base i)) (v ++ .mark .leftBracket :: (w ++ [.mark .rightBracket])) := by
  unfold subscript
  split
  · exact .field hbase hi
  · next hname => exact .index hbase hi fun name hi => hname name hi

theorem postfixRest_reads (hagain : AgainReads params again) (bound : Nat) {base : Expr} {v : List Token}
    (hbase : Derives params (.subscripted base) v) {ts rest : List PlacedToken} {e : Expr}
    (h : postfixRest again bound base ts = .ok (e, rest)) :
    ∃ taken, ts = taken ++ rest ∧ Derives params (.subscripted e) (v ++ words taken) := by
  induction bound generalizing base v ts with
  | zero =>
    unfold postfixRest at h
    split at h
    · next hnum => cases hnum
    · cases h
    · cases h
    · cases h
      exact exists_taken_nil hbase rest
  | succ bound ih =>
    unfold postfixRest at h
    split at h
    · next start stop ts hnum =>
      cases hnum
      obtain ⟨⟨i, more⟩, hi, hrest⟩ := bind_eq_ok h
      obtain ⟨taken, rfl, hE⟩ := hagain .expr _ _ _ hi
      obtain ⟨after, hclose, hlast⟩ := bind_eq_ok hrest
      obtain ⟨t, rfl, ht⟩ := expect_eq_ok hclose
      obtain ⟨others, rfl, hD⟩ := ih (subscript_derives hbase hE) hlast
      refine ⟨⟨.mark .leftBracket, start, stop⟩ :: (taken ++ t :: others), by simp, ?_⟩
      simp only [words_cons, words_append, ht]
      simpa only [List.append_assoc, List.cons_append, List.nil_append] using hD
    · cases h
    · cases h
    · cases h
      exact exists_taken_nil hbase rest

theorem postfixed_reads (hagain : AgainReads params again) :
    Reads (fun e => Derives params (.subscripted e)) (postfixed params again) := by
  intro ts e rest h
  obtain ⟨⟨base, more⟩, hbase, hrest⟩ := bind_eq_ok h
  obtain ⟨taken, rfl, hE⟩ := atom_reads hagain _ _ _ hbase
  obtain ⟨others, rfl, hD⟩ := postfixRest_reads hagain _ (.subscripted hE) hrest
  exact ⟨taken ++ others, (List.append_assoc ..).symm, by rw [words_append]; exact hD⟩

theorem power_reads (hagain : AgainReads params again) :
    Reads (fun e => Derives params (.power e)) (power params again) := by
  intro ts e rest h
  obtain ⟨⟨base, more⟩, hbase, hrest⟩ := bind_eq_ok h
  obtain ⟨taken, rfl, hE⟩ := postfixed_reads hagain _ _ _ hbase
  dsimp only at hrest
  split at hrest
  · next after hstar =>
    obtain ⟨t, rfl, ht⟩ := eat?_eq_some hstar
    obtain ⟨⟨exponent, last⟩, hexponent, hresult⟩ := bind_eq_ok hrest
    cases hresult
    obtain ⟨further, rfl, hD⟩ := hagain .factor _ _ _ hexponent
    refine ⟨taken ++ t :: further, by simp, ?_⟩
    simp only [words_cons, words_append, ht]
    exact .pow hE hD
  · cases hrest
    exact ⟨taken, rfl, .power hE⟩

theorem factor_reads (hagain : AgainReads params again) :
    Reads (fun e => Derives params (.factor e)) (factor params again) := by
  intro ts e rest h
  unfold factor at h
  split at h
  · next hmark =>
    obtain ⟨t, after, rfl, ht⟩ := headMark?_eq_some hmark
    obtain ⟨⟨e, last⟩, hread, hresult⟩ := bind_eq_ok h
    cases hresult
    obtain ⟨taken, htaken, hD⟩ := hagain .factor _ _ _ hread
    cases htaken
    refine ⟨t :: taken, rfl, ?_⟩
    simp only [words_cons, ht]
    exact .minus hD (negated_spec e)
  · next hmark =>
    obtain ⟨t, after, rfl, ht⟩ := headMark?_eq_some hmark
    obtain ⟨⟨e, last⟩, hread, hresult⟩ := bind_eq_ok h
    cases hresult
    obtain ⟨taken, htaken, hD⟩ := hagain .factor _ _ _ hread
    cases htaken
    refine ⟨t :: taken, rfl, ?_⟩
    simp only [words_cons, ht]
    exact .plus hD
  · obtain ⟨taken, rfl, hD⟩ := power_reads hagain _ _ _ h
    exact ⟨taken, rfl, .factor hD⟩

theorem term_reads (hagain : AgainReads params again) :
    Reads (fun e => Derives params (.term e)) (term params again) := by
  refine chain_reads (factor_reads hagain) (fun e w => .term) fun m op a b v w hop ha hb => ?_
  split at hop
  · cases hop
    exact @Derives.mulOrDiv _ .mul _ _ _ _ (by decide) ha hb
  · cases hop
    exact @Derives.mulOrDiv _ .div _ _ _ _ (by decide) ha hb
  · cases hop
    exact @Derives.mulOrDiv _ .floorDiv _ _ _ _ (by decide) ha hb
  · cases hop
    exact @Derives.mulOrDiv _ .mod _ _ _ _ (by decide) ha hb
  · cases hop

theorem sum_reads (hagain : AgainReads params again) :
    Reads (fun e => Derives params (.sum e)) (sum params again) := by
  refine chain_reads (term_reads hagain) (fun e w => .sum) fun m op a b v w hop ha hb => ?_
  split at hop
  · cases hop
    exact @Derives.addOrSub _ .add _ _ _ _ (by decide) ha hb
  · cases hop
    exact @Derives.addOrSub _ .sub _ _ _ _ (by decide) ha hb
  · cases hop

theorem comparison_reads (hagain : AgainReads params again) :
    Reads (fun e => Derives params (.comparison e)) (comparison params again) := by
  intro ts e rest h
  obtain ⟨⟨first, more⟩, hfirst, hrest⟩ := bind_eq_ok h
  obtain ⟨taken, rfl, hE⟩ := sum_reads hagain _ _ _ hfirst
  obtain ⟨⟨chained, after⟩, hlinks, hresult⟩ := bind_eq_ok hrest
  obtain ⟨further, rfl, hD⟩ := links_reads (sum_reads hagain) _ _ _ _ hlinks
  have hwords : words (taken ++ further) = words taken ++ words further := List.map_append
  cases chained with
  | nil =>
    cases hresult
    cases hfurther : words further with
    | nil =>
      refine ⟨taken ++ further, (List.append_assoc ..).symm, ?_⟩
      rw [hwords, hfurther, List.append_nil]
      exact .comparison hE
    | cons t w =>
      rw [hfurther] at hD
      cases hD
  | cons link chained =>
    cases hresult
    refine ⟨taken ++ further, (List.append_assoc ..).symm, ?_⟩
    rw [hwords]
    exact .compare hE hD

theorem negation_reads (hagain : AgainReads params again) :
    Reads (fun e => Derives params (.negation e)) (negation params again) := by
  intro ts e rest h
  unfold negation at h
  split at h
  · next after hnot =>
    obtain ⟨t, rfl, ht⟩ := eat?_eq_some hnot
    obtain ⟨⟨e, last⟩, hread, hresult⟩ := bind_eq_ok h
    cases hresult
    obtain ⟨taken, rfl, hD⟩ := hagain .negation _ _ _ hread
    refine ⟨t :: taken, rfl, ?_⟩
    simp only [words_cons, ht]
    exact .not hD
  · obtain ⟨taken, rfl, hD⟩ := comparison_reads hagain _ _ _ h
    exact ⟨taken, rfl, .negation hD⟩

theorem conjunction_reads (hagain : AgainReads params again) :
    Reads (fun e => Derives params (.conjunction e)) (conjunction params again) := by
  refine chain_reads (negation_reads hagain) (fun e w => .conjunction) fun m op a b v w hop ha hb => ?_
  split at hop
  · cases hop
    exact .and ha hb
  · cases hop

theorem disjunction_reads (hagain : AgainReads params again) :
    Reads (fun e => Derives params (.disjunction e)) (disjunction params again) := by
  refine chain_reads (conjunction_reads hagain) (fun e w => .disjunction) fun m op a b v w hop ha hb => ?_
  split at hop
  · cases hop
    exact .or ha hb
  · cases hop

theorem expr_reads (hagain : AgainReads params again) :
    Reads (fun e => Derives params (.expr e)) (expr params again) := by
  intro ts e rest h
  obtain ⟨⟨yes, more⟩, hyes, hrest⟩ := bind_eq_ok h
  obtain ⟨taken, rfl, hE⟩ := disjunction_reads hagain _ _ _ hyes
  dsimp only at hrest
  split at hrest
  · cases hrest
    exact ⟨taken, rfl, .expr hE⟩
  · next after hif =>
    obtain ⟨t, rfl, ht⟩ := eat?_eq_some hif
    obtain ⟨⟨cond, between⟩, hcond, hlater⟩ := bind_eq_ok hrest
    obtain ⟨middle, rfl, hC⟩ := disjunction_reads hagain _ _ _ hcond
    obtain ⟨last, helse, hlast⟩ := bind_eq_ok hlater
    obtain ⟨t', rfl, ht'⟩ := expect_eq_ok helse
    obtain ⟨⟨no, final⟩, hno, hresult⟩ := bind_eq_ok hlast
    cases hresult
    obtain ⟨further, rfl, hD⟩ := hagain .expr _ _ _ hno
    refine ⟨taken ++ t :: (middle ++ t' :: further), by simp, ?_⟩
    simp only [words_cons, words_append, ht, ht']
    exact .ifElse hE hC hD

end

/-- The rules of all levels read their phrases, whatever the bound. -/
theorem level_reads (params : List String) (bound : Nat) : AgainReads params (level params bound) := by
  induction bound with
  | zero =>
    intro l ts e rest h
    cases h
  | succ bound ih =>
    intro l
    cases l with
    | expr => exact expr_reads ih
    | negation => exact negation_reads ih
    | factor => exact factor_reads ih

/-! ### Lambdas -/

theorem parameters_reads (bound : Nat) {seen params : List String} (hseen : seen.Nodup)
    {ts rest : List PlacedToken} (h : parameters seen bound ts = .ok (params, rest)) :
    params.Nodup ∧ ∃ names taken, params = seen ++ names ∧ ts = taken ++ rest ∧ DerivesNames names (words taken) := by
  induction bound generalizing seen ts with
  | zero =>
    cases h
    exact ⟨hseen, [], [], (List.append_nil _).symm, rfl, .none⟩
  | succ bound ih =>
    unfold parameters at h
    split at h
    · cases h
      exact ⟨hseen, [], [], (List.append_nil _).symm, rfl, .none⟩
    · obtain ⟨⟨⟨name, position⟩, after⟩, hident, hrest⟩ := bind_eq_ok h
      obtain ⟨t, rfl, ht⟩ := ident_eq_ok hident
      dsimp only at hrest
      split at hrest
      · cases hrest
      · next hnew =>
        have hname : name ∉ seen := by simpa using hnew
        have hnodup : (seen ++ [name]).Nodup := by
          rw [← List.concat_eq_append]
          exact List.Nodup.concat hname hseen
        split at hrest
        · next more hcomma =>
          obtain ⟨t', rfl, ht'⟩ := eat?_eq_some hcomma
          obtain ⟨hparams, names, taken, rfl, rfl, hD⟩ := ih hnodup hrest
          refine ⟨hparams, name :: names, t :: t' :: taken, by simp, rfl, ?_⟩
          simp only [words_cons, ht, ht']
          exact .next hD
        · cases hrest
          refine ⟨hnodup, [name], [t], rfl, rfl, ?_⟩
          simp only [words_cons, words_nil, ht]
          exact .last name

/-- The tokens of a lambda derive what the parser makes of them. -/
theorem derives_of_lambda {ts : List PlacedToken} {params : List String} {body : Expr}
    (h : lambda ts = .ok (params, body)) : DerivesLambda params body (words ts) := by
  obtain ⟨after, hlambda, hrest⟩ := bind_eq_ok h
  obtain ⟨t, rfl, ht⟩ := expect_eq_ok hlambda
  obtain ⟨⟨names, more⟩, hparams, hlater⟩ := bind_eq_ok hrest
  obtain ⟨hnodup, names', taken, hnames, rfl, hN⟩ := parameters_reads _ List.nodup_nil hparams
  obtain ⟨inner, hcolon, hlast⟩ := bind_eq_ok hlater
  obtain ⟨t', rfl, ht'⟩ := expect_eq_ok hcolon
  obtain ⟨⟨e, final⟩, hbody, hresult⟩ := bind_eq_ok hlast
  obtain ⟨further, rfl, hD⟩ := level_reads names _ .expr _ _ _ hbody
  cases final with
  | cons t ts => cases hresult
  | nil =>
    cases hresult
    rw [List.nil_append] at hnames
    subst hnames
    simp only [words_cons, words_append, List.append_nil, ht, ht']
    exact .lambda hN hnodup hD

end Parser
end Millrace
