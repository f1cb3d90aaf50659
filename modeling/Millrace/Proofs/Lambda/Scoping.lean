import Millrace.Proofs.Lambda.Causes
import Millrace.Proofs.Lambda.Descent
import Millrace.Proofs.Lambda.NamedColumns

/-!
# Scopes of lambdas

A lambda is parsed or built, and its names may be bound to columns (`Lambda.Made`).  In either way the body mentions
no parameters but those of the lambda, and calls each function with a number of arguments that it takes: the parser
derives nothing else, building refuses everything else, and binding keeps parameters and numbers of arguments.  The
evaluator then always finds what it looks for, and a row of the wrong width is the only reason left to complain about
a number of arguments.

## Main statements

* `inScope_of_derives`: the bodies that the grammar derives.
* `inScope_of_build`: the bodies that are built.
* `resolveFields_inScope`: binding.
* `Lambda.Made.scope`: what all lambdas have in common.
-/

namespace Millrace

/-- Among `n` parameters, none of the expressions is by itself out of scope. -/
def InScope (n : Nat) (xs : List Expr) : Prop := ∀ x ∈ xs, x.scopeFault? n = none

section
variable {n : Nat} {x : Expr} {xs ys : List Expr}

theorem InScope.nil (n : Nat) : InScope n [] := List.forall_mem_nil _

theorem InScope.cons (hx : x.scopeFault? n = none) (hxs : InScope n xs) : InScope n (x :: xs) :=
  List.forall_mem_cons.2 ⟨hx, hxs⟩

theorem InScope.append (hxs : InScope n xs) (hys : InScope n ys) : InScope n (xs ++ ys) :=
  List.forall_mem_append.2 ⟨hxs, hys⟩

theorem InScope.tail (h : InScope n (x :: xs)) : InScope n xs := (List.forall_mem_cons.1 h).2

theorem InScope.append_iff : InScope n (xs ++ ys) ↔ InScope n xs ∧ InScope n ys := List.forall_mem_append

end

namespace Expr

section
variable {n i : Nat} {f : Builtin} {es : List Expr}

theorem scopeFault?_param : (param i).scopeFault? n = none ↔ i < n := by simp [scopeFault?]

theorem scopeFault?_call : (call f es).scopeFault? n = none ↔ f.accepts es.length = true := by simp [scopeFault?]

end
end Expr

/-! ### Parsed bodies -/

namespace Grammar

/-- The expressions in a phrase. -/
def Phrase.subterms : Phrase → List Expr
  | expr e | disjunction e | conjunction e | negation e | comparison e | sum e | term e | factor e | power e
  | subscripted e | atom e => e.subterms
  | items es => Expr.subtermsOfAll es
  | links chained => Expr.subtermsOfLinks chained

theorem inScope_of_negated {n : Nat} {e negative : Expr} (h : Negated e negative) (he : InScope n e.subterms) :
    InScope n negative.subterms := by
  cases h with
  | number => exact .cons rfl (.nil n)
  | operator => exact .cons rfl he

/-- What the grammar derives is in the scope of the parameters. -/
theorem inScope_of_derives {params : List String} {p : Phrase} {w : List Token} (h : Derives params p w) :
    InScope params.length p.subterms := by
  induction h with
  | expr _ ih | disjunction _ ih | conjunction _ ih | negation _ ih | comparison _ ih | sum _ ih | term _ ih
  | factor _ ih | power _ ih | subscripted _ ih | parens _ ih =>
    exact ih
  | ifElse _ _ _ ihyes ihcond ihno => exact .cons rfl (.append ihcond (.append ihyes ihno))
  | or _ _ iha ihb | and _ _ iha ihb | addOrSub _ _ _ iha ihb | mulOrDiv _ _ _ iha ihb | pow _ _ iha ihb
  | index _ _ _ iha ihb | compare _ _ iha ihb =>
    exact .cons rfl (.append iha ihb)
  | not _ ih | plus _ ih => exact .cons rfl ih
  | field _ _ ihbase => exact .cons rfl ihbase
  | minus _ hneg ih => exact inScope_of_negated hneg ih
  | int | float | str | yes | no | constant | mathConstant | unit => exact .cons rfl (.nil _)
  | param hname =>
    obtain ⟨hlt, -⟩ := List.idxOf?_eq_some_iff.1 hname
    exact .cons (Expr.scopeFault?_param.2 hlt) (.nil _)
  | call _ _ _ hcount ih | mathCall _ _ _ hcount ih => exact .cons (Expr.scopeFault?_call.2 hcount) ih
  | tuple _ _ ihfirst ihothers => exact .cons rfl (.append ihfirst ihothers)
  | noItems | noLinks => exact .nil _
  | lastItem _ ih => exact .append ih (.nil _)
  | item _ _ ihfirst ihothers => exact .append ihfirst ihothers
  | link _ _ ihe ihlinks => exact .append ihe ihlinks

end Grammar

/-- The body of a parsed lambda is in scope. -/
theorem inScope_of_parse {text : String} {f : Lambda} (h : Lambda.parse text = .ok f) :
    InScope f.arity f.body.subterms := by
  unfold Lambda.parse at h
  split at h
  · next params body hread =>
    cases h
    obtain ⟨ts, -, hlambda⟩ := bind_eq_ok hread
    have hderives := Parser.derives_of_lambda hlambda
    generalize words ts = w at hderives
    cases hderives with
    | lambda _ _ hbody => exact Grammar.inScope_of_derives hbody
  · cases h

/-! ### Built bodies -/

/-- The greatest parameter position bounds them all. -/
theorem Expr.lt_of_maxParam? {n i : Nat} {e : Expr} (h : e.maxParam?.filter (n ≤ ·) = none)
    (hi : .param i ∈ e.subterms) : i < n := by
  have hmem : i ∈ e.subterms.filterMap asParam? := List.mem_filterMap.2 ⟨_, hi, rfl⟩
  cases hmax : e.maxParam? with
  | none =>
    rw [List.max?_eq_none_iff.1 hmax] at hmem
    cases hmem
  | some greatest =>
    rw [hmax, Option.filter_some] at h
    have hsmall : ¬ n ≤ greatest := by simpa using h
    have hle : i ≤ greatest := (List.max?_eq_some_iff.1 hmax).2 i hmem
    omega

/-- A body that is not refused is in scope. -/
theorem inScope_of_build {params : List String} {body : Expr} {f : Lambda}
    (h : Lambda.build params body = .ok f) : InScope f.arity f.body.subterms := by
  unfold Lambda.build at h
  split at h
  · cases h
  · cases h
  · next hparams hcalls =>
    cases h
    intro x hx
    cases x with
    | param i => exact Expr.scopeFault?_param.2 (Expr.lt_of_maxParam? hparams hx)
    | call g args =>
      have hcall := List.findSome?_eq_none_iff.1 hcalls _ hx
      rw [Expr.scopeFault?_call]
      simpa [Expr.asBadCall?] using hcall
    | _ => rfl

/-! ### Bound bodies -/

namespace Expr

section
variable {ε : Type} {position : String → Except ε Nat}

theorem length_of_resolveAll : {es es' : List Expr} → resolveAll position es = .ok es' → es'.length = es.length
  | [], _, h => by
    cases h
    rfl
  | e :: es, _, h => by
    obtain ⟨e', -, hrest⟩ := bind_eq_ok h
    obtain ⟨rest', hrest', hcons⟩ := bind_eq_ok hrest
    cases hcons
    rw [List.length_cons, List.length_cons, length_of_resolveAll hrest']

variable {n : Nat}

mutual

/-- Resolving names keeps parameters and numbers of arguments. -/
theorem resolveFields_inScope : (e e' : Expr) → e.resolveFields position = .ok e' → InScope n e.subterms →
    InScope n e'.subterms
  | const v, _, h, he => by
    cases h
    exact he
  | param i, _, h, he => by
    cases h
    exact he
  | unary op e, _, h, he => by
    obtain ⟨e', hresolve, hself⟩ := bind_eq_ok h
    cases hself
    exact .cons rfl (resolveFields_inScope e e' hresolve he.tail)
  | binary op a b, _, h, he | and a b, _, h, he | or a b, _, h, he => by
    obtain ⟨a', ha, hrest⟩ := bind_eq_ok h
    obtain ⟨b', hb, hself⟩ := bind_eq_ok hrest
    cases hself
    obtain ⟨hina, hinb⟩ := InScope.append_iff.1 he.tail
    exact .cons rfl (.append (resolveFields_inScope a a' ha hina) (resolveFields_inScope b b' hb hinb))
  | compare first links, _, h, he => by
    obtain ⟨first', hfirst, hrest⟩ := bind_eq_ok h
    obtain ⟨links', hlinks, hself⟩ := bind_eq_ok hrest
    cases hself
    obtain ⟨hinfirst, hinlinks⟩ := InScope.append_iff.1 he.tail
    exact .cons rfl (.append (resolveFields_inScope first first' hfirst hinfirst)
      (resolveLinks_inScope links links' hlinks hinlinks))
  | ifElse c y no, _, h, he => by
    obtain ⟨c', hc, hrest⟩ := bind_eq_ok h
    obtain ⟨y', hy, hlast⟩ := bind_eq_ok hrest
    obtain ⟨no', hno, hself⟩ := bind_eq_ok hlast
    cases hself
    obtain ⟨hinc, hbranches⟩ := InScope.append_iff.1 he.tail
    obtain ⟨hiny, hinno⟩ := InScope.append_iff.1 hbranches
    exact .cons rfl (.append (resolveFields_inScope c c' hc hinc)
      (.append (resolveFields_inScope y y' hy hiny) (resolveFields_inScope no no' hno hinno)))
  | call f es, _, h, he => by
    obtain ⟨es', hes, hself⟩ := bind_eq_ok h
    cases hself
    have hcount := scopeFault?_call.1 (he _ (List.mem_cons_self ..))
    rw [← length_of_resolveAll hes] at hcount
    exact .cons (scopeFault?_call.2 hcount) (resolveAll_inScope es es' hes he.tail)
  | tuple es, _, h, he => by
    obtain ⟨es', hes, hself⟩ := bind_eq_ok h
    cases hself
    exact .cons rfl (resolveAll_inScope es es' hes he.tail)
  | index base i, _, h, he => by
    obtain ⟨base', hbase, hrest⟩ := bind_eq_ok h
    obtain ⟨i', hi, hself⟩ := bind_eq_ok hrest
    cases hself
    obtain ⟨hinbase, hini⟩ := InScope.append_iff.1 he.tail
    exact .cons rfl (.append (resolveFields_inScope base base' hbase hinbase) (resolveFields_inScope i i' hi hini))
  | field base name, _, h, he => by
    obtain ⟨base', hbase, hrest⟩ := bind_eq_ok h
    obtain ⟨p, -, hself⟩ := bind_eq_ok hrest
    cases hself
    exact .cons rfl (.append (resolveFields_inScope base base' hbase he.tail) (.cons rfl (.nil n)))

theorem resolveAll_inScope : (es es' : List Expr) → resolveAll position es = .ok es' →
    InScope n (subtermsOfAll es) → InScope n (subtermsOfAll es')
  | [], _, h, _ => by
    cases h
    exact .nil n
  | e :: es, _, h, he => by
    obtain ⟨e', hresolve, hrest⟩ := bind_eq_ok h
    obtain ⟨es', hes, hself⟩ := bind_eq_ok hrest
    cases hself
    obtain ⟨hine, hines⟩ := InScope.append_iff.1 he
    exact .append (resolveFields_inScope e e' hresolve hine) (resolveAll_inScope es es' hes hines)

theorem resolveLinks_inScope : (links links' : List (CompareOp × Expr)) → resolveLinks position links = .ok links' →
    InScope n (subtermsOfLinks links) → InScope n (subtermsOfLinks links')
  | [], _, h, _ => by
    cases h
    exact .nil n
  | (op, e) :: links, _, h, he => by
    obtain ⟨e', hresolve, hrest⟩ := bind_eq_ok h
    obtain ⟨links', hlinks, hself⟩ := bind_eq_ok hrest
    cases hself
    obtain ⟨hine, hinlinks⟩ := InScope.append_iff.1 he
    exact .append (resolveFields_inScope e e' hresolve hine) (resolveLinks_inScope links links' hlinks hinlinks)

end
end
end Expr

/-- Binding columns keeps the scope of a lambda. -/
theorem inScope_of_bindColumns {f g : Lambda} {columns : Option (List String)}
    (h : f.bindColumns columns = .ok g) (hf : InScope f.arity f.body.subterms) :
    InScope g.arity g.body.subterms := by
  rw [bindColumns_eq] at h
  obtain ⟨body, hbody, hg⟩ := map_eq_ok h
  cases hg
  exact Expr.resolveFields_inScope f.body body hbody hf

/-! ### All lambdas -/

/-- A lambda that can come about: it is parsed or built, and its columns may be bound. -/
inductive Lambda.Made : Lambda → Prop
  | parsed {text : String} {f : Lambda} : Lambda.parse text = .ok f → Made f
  | built {params : List String} {body : Expr} {f : Lambda} : Lambda.build params body = .ok f → Made f
  | bound {f g : Lambda} {columns : Option (List String)} : Made f → f.bindColumns columns = .ok g → Made g

theorem Lambda.Made.inScope {f : Lambda} (h : f.Made) : InScope f.arity f.body.subterms := by
  induction h with
  | parsed hparse => exact inScope_of_parse hparse
  | built hbuild => exact inScope_of_build hbuild
  | bound _ hbind ih => exact inScope_of_bindColumns hbind ih

section
variable {f : Lambda} {row : Row}

theorem bindArguments_eq_ok (h : ¬ (row.length ≠ f.arity ∧ f.arity ≠ 1)) :
    ∃ args, bindArguments f.arity row = .ok args ∧ args.length = f.arity := by
  unfold bindArguments
  split
  · next heq => exact ⟨row, rfl, heq.symm⟩
  · next hne =>
    split
    · next hone => exact ⟨[.tuple row], rfl, hone.symm⟩
    · next hmany => exact absurd ⟨Ne.symm hne, hmany⟩ h

/-- In scope, a lambda complains about a number of arguments only when the width of the row is wrong. -/
theorem eval_arity_iff (hf : InScope f.arity f.body.subterms) :
    (∃ e, f.eval row = .error e ∧ e.kind = .arity) ↔ row.length ≠ f.arity ∧ f.arity ≠ 1 := by
  constructor
  · rintro ⟨e, he, hkind⟩
    by_contra hwidth
    obtain ⟨args, hargs, hlen⟩ := bindArguments_eq_ok hwidth
    have hbody : f.body.eval args = .error e := by
      rw [Lambda.eval, hargs] at he
      exact he
    -- the arguments are as many as the parameters, so no subterm is out of their scope
    have hscope : ∀ x ∈ f.body.subterms, ∀ cause, x.scopeFault? args.length = some cause →
        cause.isOfValues = true := by
      intro x hx cause hcause
      rw [hlen, hf x hx] at hcause
      cases hcause
    have hcause := f.body.eval_failsWith (fun _ h => h) hscope e hbody
    obtain ⟨-, hnot⟩ := Bool.and_eq_true_iff.1 hcause
    rw [show e.cause.kind = .arity from hkind] at hnot
    cases hnot
  · rintro ⟨hwidth, hone⟩
    refine ⟨{ cause := .rowWidth f.arity row.length }, ?_, rfl⟩
    rw [Lambda.eval, bindArguments, if_neg (Ne.symm hwidth), if_neg hone]
    rfl

/-- The parameters in the body of a lambda exist, its calls have arguments that their functions take, and it fails for
a number of arguments exactly on the rows that do not fit its parameters. -/
theorem Lambda.Made.scope (h : f.Made) :
    (∀ i, .param i ∈ f.body.subterms → i < f.arity) ∧
      (∀ g args, .call g args ∈ f.body.subterms → g.accepts args.length = true) ∧
      ∀ row : Row, (∃ e, f.eval row = .error e ∧ e.kind = .arity) ↔ row.length ≠ f.arity ∧ f.arity ≠ 1 :=
  ⟨fun _ hi => Expr.scopeFault?_param.1 (h.inScope _ hi),
    fun _ _ hcall => Expr.scopeFault?_call.1 (h.inScope _ hcall), fun _ => eval_arity_iff h.inScope⟩

end

/-- `lambda r, n: max(r['b'], n)`, bound to the columns `a` and `b` -/
def boundMaximum : Lambda :=
  ⟨["r", "n"], .call (.extremum .max) [.index (.param 0) (.const (.int 1)), .param 1], none⟩

theorem Lambda.Made.scope_boundMaximum :
    Builtin.accepts (.extremum .max) 2 = true ∧
      ((∃ e, boundMaximum.eval [.int 1] = .error e ∧ e.kind = .arity) ↔
        List.length [Value.int 1] ≠ boundMaximum.arity ∧ boundMaximum.arity ≠ 1) := by
  have hbuild : Lambda.build ["r", "n"] (.call (.extremum .max) [.field (.param 0) "b", .param 1]) =
      .ok ⟨["r", "n"], .call (.extremum .max) [.field (.param 0) "b", .param 1], none⟩ := rfl
  have hbind : Lambda.bindColumns ⟨["r", "n"], .call (.extremum .max) [.field (.param 0) "b", .param 1], none⟩
      (some ["a", "b"]) = .ok boundMaximum := rfl
  obtain ⟨-, hcalls, hrows⟩ := Lambda.Made.scope (.bound (.built hbuild) hbind)
  exact ⟨hcalls _ _ (List.mem_cons_self ..), hrows [.int 1]⟩

end Millrace
