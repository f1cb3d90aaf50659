import Millrace.FastPath.Compiled
import Millrace.Lambda.Eval
import Millrace.Proofs.FastPath.Branches
import Millrace.Proofs.FastPath.Calls
import Millrace.Proofs.FastPath.Columns
import Millrace.Proofs.FastPath.Sequences

/-!
# Fast paths against the general evaluator

The lowering of an expression simulates its evaluation (`lower_simulates`), so a fast path agrees with the general
evaluator on every row of its schema (`compile_agrees`), up to the faults of tuples that are repeated no times: the
lowering leaves such a tuple out, whether its items fail or not.

## Main statements

* `lower_simulates`: the simulation, by induction on the expression.
* `call_eq_ok`: a value of a fast path is the value of the evaluator, or the evaluator fails in a tuple left out.
* `call_sound`: without tuples repeated no times, fast paths are sound.
-/

namespace Millrace.FastPath

/-! ### Expressions -/

/-- The lowered parameters give the arguments on a row. -/
def Provides (params : List Lowered) (args : List Value) (row : Row) : Prop :=
  ∀ (i : Nat) (l : Lowered), params[i]? = some l → l.Honest row ∧ ∃ v, args[i]? = some v ∧ l.run row = .ok v

/-- The expression repeats a lowered tuple no times, and evaluating this tuple fails with `e`. -/
def DropsFault (params : List Lowered) (args : List Value) (e : Fault) : Expr → Prop
  | .binary .mul a b =>
    (∃ items traits, lower params a = .ok (.tuple items traits)) ∧
      (∃ m n, lower params b = .ok m ∧ m.constantInt? = some n ∧ n ≤ 0) ∧ a.eval args = .error e
  | _ => False

section
variable {params : List Lowered} {args : List Value} {row : Row} {excused : Fault → Prop}

mutual

/-- The lowering of an expression simulates its evaluation, up to the faults of the tuples that it drops. -/
theorem lower_simulates (hparams : Provides params args row) :
    (e : Expr) → (∀ x ∈ e.subterms, ∀ e', DropsFault params args e' x → excused e') →
      ∀ {l : Lowered}, lower params e = .ok l → Simulates excused row l (e.eval args)
  | .const v, _, _, h => by
    cases h
    obtain ⟨hhonest, hrun⟩ := Lowered.ofConstant_spec row v
    refine ⟨hhonest, ?_⟩
    rw [hrun]
    exact .value rfl
  | .param i, _, _, h => by
    simp only [lower] at h
    split at h
    · next l hl =>
      cases h
      obtain ⟨hhonest, v, hv, hrun⟩ := hparams i _ hl
      refine ⟨hhonest, ?_⟩
      rw [hrun, Expr.eval, hv]
      exact .value rfl
    · cases h
  | .unary op e, hdrop, _, h => by
    obtain ⟨-, he⟩ := List.forall_mem_cons.1 hdrop
    obtain ⟨l, hl, hop⟩ := bind_eq_ok h
    exact unary_simulates (lower_simulates hparams e he hl) hop
  | .binary op a b, hdrop, _, h => by
    obtain ⟨hself, hrest⟩ := List.forall_mem_cons.1 hdrop
    obtain ⟨ha, hb⟩ := List.forall_mem_append.1 hrest
    obtain ⟨l, hl, h⟩ := bind_eq_ok h
    obtain ⟨m, hm, hop⟩ := bind_eq_ok h
    refine binary_simulates (lower_simulates hparams a ha hl) (lower_simulates hparams b hb hm) ?_ hop
    rintro items traits n rfl rfl hn hle e he
    exact hself e ⟨⟨items, traits, hl⟩, ⟨m, n, hm, hn, hle⟩, he⟩
  | .compare first links, hdrop, _, h => by
    obtain ⟨-, hrest⟩ := List.forall_mem_cons.1 hdrop
    obtain ⟨hfirst, hlinks⟩ := List.forall_mem_append.1 hrest
    obtain ⟨l, hl, h⟩ := bind_eq_ok h
    split at h
    · cases h
    · next c hc =>
      obtain ⟨chain, hchain, hout⟩ := bind_eq_ok h
      cases hout
      exact comparison_simulates (lower_simulates hparams first hfirst hl) hc fun hv htext =>
        lowerLinks_agrees hparams links hlinks hchain hv htext
  | .and a b, hdrop, _, h => by
    obtain ⟨-, hrest⟩ := List.forall_mem_cons.1 hdrop
    obtain ⟨ha, hb⟩ := List.forall_mem_append.1 hrest
    obtain ⟨l, hl, h⟩ := bind_eq_ok h
    obtain ⟨m, hm, hop⟩ := bind_eq_ok h
    have hlogic := logic_simulates (lower_simulates hparams a ha hl) (lower_simulates hparams b hb hm) hop
    simp only [beq_true] at hlogic
    exact hlogic
  | .or a b, hdrop, _, h => by
    obtain ⟨-, hrest⟩ := List.forall_mem_cons.1 hdrop
    obtain ⟨ha, hb⟩ := List.forall_mem_append.1 hrest
    obtain ⟨l, hl, h⟩ := bind_eq_ok h
    obtain ⟨m, hm, hop⟩ := bind_eq_ok h
    have hlogic := logic_simulates (lower_simulates hparams a ha hl) (lower_simulates hparams b hb hm) hop
    -- the lowered disjunction asks for a false operand, the evaluator for a true one
    have heval : (Expr.or a b).eval args =
        (do let v ← a.eval args; if v.truthy == false then b.eval args else .ok v) := by
      rw [Expr.eval]
      congr 1
      funext v
      cases v.truthy <;> rfl
    rw [heval]
    exact hlogic
  | .ifElse c y n, hdrop, _, h => by
    obtain ⟨-, hrest⟩ := List.forall_mem_cons.1 hdrop
    obtain ⟨hc, hrest⟩ := List.forall_mem_append.1 hrest
    obtain ⟨hy, hn⟩ := List.forall_mem_append.1 hrest
    obtain ⟨cond, hcond, h⟩ := bind_eq_ok h
    obtain ⟨yes, hyes, h⟩ := bind_eq_ok h
    obtain ⟨no, hno, hop⟩ := bind_eq_ok h
    exact ifElse_simulates (lower_simulates hparams c hc hcond) (lower_simulates hparams y hy hyes)
      (lower_simulates hparams n hn hno) hop
  | .call f es, hdrop, _, h => by
    obtain ⟨-, hes⟩ := List.forall_mem_cons.1 hdrop
    obtain ⟨ls, hls, hop⟩ := bind_eq_ok h
    exact call_simulates (lowerAll_simulates hparams es hes hls) hop
  | .tuple es, hdrop, _, h => by
    obtain ⟨-, hes⟩ := List.forall_mem_cons.1 hdrop
    obtain ⟨ls, hls, hout⟩ := bind_eq_ok h
    cases hout
    exact tuple_simulates (lowerAll_simulates hparams es hes hls)
  | .index base i, hdrop, _, h => by
    obtain ⟨-, hrest⟩ := List.forall_mem_cons.1 hdrop
    obtain ⟨hbase, hi⟩ := List.forall_mem_append.1 hrest
    obtain ⟨l, hl, h⟩ := bind_eq_ok h
    obtain ⟨m, hm, hop⟩ := bind_eq_ok h
    exact index_simulates (lower_simulates hparams base hbase hl) (lower_simulates hparams i hi hm) hop
  | .field _ _, _, _, h => by cases h

theorem lowerAll_simulates (hparams : Provides params args row) :
    (es : List Expr) → (∀ x ∈ Expr.subtermsOfAll es, ∀ e', DropsFault params args e' x → excused e') →
      ∀ {ls : List Lowered}, lowerAll params es = .ok ls → SimulatesAll excused row ls (Expr.evalAll args es)
  | [], _, _, h => by
    cases h
    exact .nil
  | e :: rest, hdrop, _, h => by
    obtain ⟨he, hrest⟩ := List.forall_mem_append.1 hdrop
    obtain ⟨l, hl, h⟩ := bind_eq_ok h
    obtain ⟨ls, hls, hout⟩ := bind_eq_ok h
    cases hout
    exact .cons (lower_simulates hparams e he hl) (lowerAll_simulates hparams rest hrest hls)

theorem lowerLinks_agrees (hparams : Provides params args row) :
    (links : List (CompareOp × Expr)) →
      (∀ x ∈ Expr.subtermsOfLinks links, ∀ e', DropsFault params args e' x → excused e') →
      ∀ {isText : Bool} {chain : List (CompareOp × Compute Lowered.Operand)},
        lowerLinks params isText links = .ok chain →
      ∀ {o : Lowered.Operand} {v : Value}, o.Denotes v → o.isText = isText →
        Agrees excused (fun b r => Value.bool b = r) (Lowered.runChain o chain row) (Expr.evalLinks args v links)
  | [], _, _, _, h, _, _, _, _ => by
    cases h
    exact .value rfl
  | (op, e) :: rest, hdrop, _, _, h, _, _, hv, htext => by
    obtain ⟨he, hrest⟩ := List.forall_mem_append.1 hdrop
    obtain ⟨l, hl, h⟩ := bind_eq_ok h
    split at h
    · cases h
    · next c hc =>
      split at h
      · cases h
      · next hmixed =>
        obtain ⟨others, hothers, hout⟩ := bind_eq_ok h
        cases hout
        refine link_agrees (lower_simulates hparams e he hl) hc
          (fun hu ht => lowerLinks_agrees hparams rest hrest hothers hu ht) hv ?_
        -- a number and a text were only lowered with an operator that tells them apart
        intro hne
        rw [htext] at hne
        cases op <;> simp_all

end

end

/-! ### Fast paths -/

variable {f : Lambda} {schema : Schema} {params : List Lowered} {row : Row} {c : Compiled} {v : Value}

/-- The lowered parameters of a lambda give the arguments that the evaluator binds. -/
theorem schemaParameters_provides (h : schemaParameters f schema = .ok params) (hrow : schema.conforms row = true) :
    ∃ args, bindArguments f.arity row = .ok args ∧ Provides params args row := by
  unfold schemaParameters at h
  split at h
  · cases h
  · next types htypes =>
    rw [Option.filter_eq_some_iff] at htypes
    have haccepts : ValueType.acceptsAll types row = true := by
      rwa [Schema.conforms, htypes.1, Option.any_some] at hrow
    split at h
    · cases h
    · next columns hcolumns =>
      obtain ⟨hhonest, hrun⟩ := Lowered.ofColumns?_spec haccepts hcolumns
      have hlen : row.length = columns.length := Lowered.length_of_runAll hrun
      unfold parameters at h
      rw [bindArguments, hlen]
      split at h
      · next harity =>
        cases h
        refine ⟨row, if_pos harity, fun i l hl => ?_⟩
        exact ⟨Lowered.allHonest_iff.1 hhonest l (List.mem_of_getElem? hl), Lowered.getElem?_of_runAll hrun hl⟩
      · next harity =>
        split at h
        · next hone =>
          cases h
          refine ⟨[.tuple row], by rw [if_neg harity, if_pos hone], fun i l hl => ?_⟩
          obtain ⟨htuple, htrun⟩ := Lowered.tuple_of_columns hhonest hrun
          cases i with
          | succ i => cases hl
          | zero =>
            cases hl
            exact ⟨htuple, .tuple row, rfl, htrun⟩
        · cases h

/-- On rows of the schema, evaluating the body repeats a tuple no times whose evaluation fails with `e`. -/
def DroppedFault (f : Lambda) (schema : Schema) (row : Row) (e : Fault) : Prop :=
  ∃ params args, schemaParameters f schema = .ok params ∧ bindArguments f.arity row = .ok args ∧
    ∃ x ∈ f.body.subterms, DropsFault params args e x

theorem compile_agrees (h : compile f schema = .ok c) (hrow : schema.conforms row = true) :
    Agrees (DroppedFault f schema row) Eq (c.call row) (f.eval row) := by
  obtain ⟨params, hparams, h⟩ := bind_eq_ok h
  obtain ⟨body, hbody, hout⟩ := bind_eq_ok h
  cases hout
  obtain ⟨args, hargs, hprovides⟩ := schemaParameters_provides hparams hrow
  have hsim : Simulates (DroppedFault f schema row) row body (f.body.eval args) :=
    lower_simulates hprovides f.body (fun x hx e he => ⟨params, args, hparams, hargs, x, hx, he⟩) hbody
  rw [Compiled.call, if_pos hrow, Lambda.eval, hargs]
  exact hsim.agrees

/-- A fast path has values on rows of its schema only. -/
theorem conforms_of_call (h : compile f schema = .ok c) (hcall : c.call row = .ok v) :
    schema.conforms row = true := by
  obtain ⟨params, -, h⟩ := bind_eq_ok h
  obtain ⟨body, -, hout⟩ := bind_eq_ok h
  cases hout
  by_cases hrow : schema.conforms row = true
  · exact hrow
  · rw [Compiled.call, if_neg hrow] at hcall
    cases hcall

/-- A value of a fast path is the value of the general evaluator, unless the evaluator fails in a tuple that the
lambda repeats no times. -/
theorem call_eq_ok (h : compile f schema = .ok c) (hcall : c.call row = .ok v) :
    f.eval row = .ok v ∨ ∃ e, f.eval row = .error e ∧ e.isFatal = false ∧ DroppedFault f schema row e := by
  have hagrees := compile_agrees h (conforms_of_call h hcall)
  rw [hcall] at hagrees
  generalize f.eval row = y at hagrees ⊢
  cases hagrees with
  | value hv => exact Or.inl (by rw [hv])
  | excused _ he hd => exact Or.inr ⟨_, rfl, hd, he⟩

/-- `lambda x: x + 1` -/
def successor : Lambda := ⟨["x"], .binary .add (.param 0) (.const (.int 1)), none⟩

theorem call_eq_ok_successor :
    ∃ c, compile successor (.row [.int]) = .ok c ∧ c.call [.int 1] = .ok (.int 2) ∧
      (successor.eval [.int 1] = .ok (.int 2) ∨ ∃ e, successor.eval [.int 1] = .error e ∧ e.isFatal = false ∧
        DroppedFault successor (.row [.int]) [.int 1] e) :=
  ⟨_, rfl, rfl, call_eq_ok rfl rfl⟩

/-- `lambda x: (1 / x,) * 0` -/
def droppedQuotient : Expr :=
  .binary .mul (.tuple [.binary .div (.const (.int 1)) (.param 0)]) (.const (.int 0))

/-- The fast path gives the empty tuple where the evaluator divides by zero. -/
theorem call_of_droppedQuotient :
    ∃ f c, Lambda.build ["x"] droppedQuotient = .ok f ∧ compile f (.row [.int]) = .ok c ∧
      c.call [.int 0] = .ok (.tuple []) ∧ f.eval [.int 0] = fault .trueDivision :=
  ⟨_, _, rfl, rfl, rfl, rfl⟩

/-- Compiling the lambda for a schema never comes to the repetition of a tuple. -/
def RepeatsNoTuples (f : Lambda) (schema : Schema) : Prop :=
  ∀ params l, schemaParameters f schema = .ok params → lower params f.body = .ok l →
    ∀ a b, .binary .mul a b ∈ f.body.subterms → ∀ items traits, lower params a ≠ .ok (.tuple items traits)

/-- Without repeated tuples, fast paths are sound. -/
theorem call_sound (hf : RepeatsNoTuples f schema) (h : compile f schema = .ok c) (hcall : c.call row = .ok v) :
    f.eval row = .ok v := by
  have hagrees := compile_agrees h (conforms_of_call h hcall)
  rw [hcall] at hagrees
  generalize f.eval row = y at hagrees ⊢
  cases hagrees with
  | value hv => rw [hv]
  | excused _ hdrop _ =>
    obtain ⟨params, args, hparams, -, x, hx, hdrop⟩ := hdrop
    obtain ⟨params', hparams', h⟩ := bind_eq_ok h
    obtain ⟨body, hbody, -⟩ := bind_eq_ok h
    cases hparams.symm.trans hparams'
    unfold DropsFault at hdrop
    split at hdrop
    · next a b =>
      obtain ⟨⟨items, traits, ha⟩, -⟩ := hdrop
      exact absurd ha (hf params body hparams hbody a b hx items traits)
    · exact absurd hdrop id

end Millrace.FastPath
