import Millrace.Lambda.Eval
import Millrace.Proofs.Lambda.DataFaults

/-!
# Causes for which a lambda fails

A lambda sees values and no columns: whatever it is applied to, the fault of a missing column is not among its faults
(`Lambda.eval_ofValues`).  It comes from a stage only.
-/

namespace Millrace

open FaultCause (isOfLambda isOfValues)

/-! ### Operators -/

theorem UnaryOp.apply_ofValues (op : UnaryOp) (v : Value) : FailsWith isOfValues (op.apply v) := by
  unfold UnaryOp.apply
  split
  · exact failsWith_ok _
  · exact failsWith_ok _
  · exact failsWith_map (Whole.checked_failsOnData _).ofValues
  · exact failsWith_ok _
  · exact failsWith_ok _
  · exact failsWith_ok _
  · exact failsWith_ok _
  · exact failsWith_fault rfl

theorem BinaryOp.onIntegers_ofValues (op : BinaryOp) (a b : Int64) : FailsWith isOfValues (op.onIntegers a b) := by
  cases op with
  | add | sub | mul => exact failsWith_map (Whole.checked_failsOnData _).ofValues
  | div => exact failsWith_map (Whole.trueDiv_failsOnData a b).ofValues
  | floorDiv => exact failsWith_map (Whole.floorDiv_failsOnData a b).ofValues
  | mod => exact failsWith_map (Whole.mod_failsOnData a b).ofValues
  | pow =>
    exact failsWith_ite (failsWith_map (Whole.pow_failsOnData a b).ofValues)
      (failsWith_map (RealNumber.wholePower_failsOnData a b).ofValues)

theorem BinaryOp.onNumbers_ofValues (op : BinaryOp) (a b : Number) : FailsWith isOfValues (op.onNumbers a b) := by
  unfold BinaryOp.onNumbers
  split
  · exact op.onIntegers_ofValues _ _
  · exact failsWith_map (op.onFloats_failsOnData _ _).ofValues

/-- A repetition fails where the other operand is no integer, or where it would be too long. -/
private theorem repetition_ofValues {α : Type} {f : α → Value} {g : Int64 → RowResult α}
    (hg : ∀ count, FailsOnData (g count)) (op : BinaryOp) (count : Option Int64) (left right : Tag) :
    FailsWith isOfValues
      (match count with
        | some count => f <$> g count
        | none => fault (.binaryOperands op left right)) := by
  cases count with
  | some count => exact failsWith_map (hg count).ofValues
  | none => exact failsWith_fault rfl

theorem BinaryOp.onSequences_ofValues (op : BinaryOp) (a b : Value) : FailsWith isOfValues (op.onSequences a b) := by
  unfold BinaryOp.onSequences
  split
  · exact failsWith_ok _
  · exact failsWith_ok _
  · exact repetition_ofValues (repeatText_failsOnData _) _ _ _ _
  · exact repetition_ofValues (repeatText_failsOnData _) _ _ _ _
  · exact repetition_ofValues (repeatItems_failsOnData _) _ _ _ _
  · exact repetition_ofValues (repeatItems_failsOnData _) _ _ _ _
  · exact failsWith_fault rfl

theorem BinaryOp.apply_ofValues (op : BinaryOp) (a b : Value) : FailsWith isOfValues (op.apply a b) := by
  unfold BinaryOp.apply
  split
  · exact op.onNumbers_ofValues _ _
  · exact op.onSequences_ofValues _ _

mutual

theorem CompareOp.apply_ofValues (op : CompareOp) : (v w : Value) → FailsWith isOfValues (op.apply v w)
  | v, w => by
    unfold CompareOp.apply
    split
    · exact failsWith_ok _
    · next xs ys => exact CompareOp.applyAll_ofValues op xs ys
    · split
      · exact failsWith_ok _
      · exact failsWith_ok _
      · exact failsWith_ok _
      · exact failsWith_fault rfl

theorem CompareOp.applyAll_ofValues (op : CompareOp) :
    (vs ws : List Value) → FailsWith isOfValues (op.applyAll vs ws)
  | [], _ | _ :: _, [] => by
    unfold CompareOp.applyAll
    exact failsWith_ok _
  | v :: vs, w :: ws => by
    unfold CompareOp.applyAll
    split
    · exact CompareOp.applyAll_ofValues op vs ws
    · split
      · exact failsWith_ok _
      · exact failsWith_ok _
      · exact CompareOp.apply_ofValues op v w

end

theorem Value.at_ofValues (base i : Value) : FailsWith isOfValues (base.at i) := by
  unfold Value.at
  split
  · exact failsWith_fault rfl
  · split
    · unfold itemAt
      split
      · exact failsWith_ok _
      · exact failsWith_fault rfl
    · exact failsWith_map (charAt_failsOnData _ _).ofValues
    · exact failsWith_fault rfl

/-! ### Builtin functions -/

theorem Builtin.realArgument_ofValues (f : Builtin) (v : Value) : FailsWith isOfValues (f.realArgument v) := by
  unfold Builtin.realArgument
  split
  · exact failsWith_ok _
  · exact failsWith_fault rfl

theorem Builtin.round_ofValues {g : Double → RowResult Int64} (hg : ∀ x, FailsOnData (g x)) (f : Builtin) (v : Value) :
    FailsWith isOfValues (f.round g v) := by
  unfold Builtin.round
  split
  · exact failsWith_ok _
  · exact failsWith_map (hg _).ofValues
  · exact failsWith_fault rfl

theorem Extremum.among_ofValues (f : Extremum) (best : Value) (vs : List Value) :
    FailsWith isOfValues (f.among best vs) := by
  induction vs generalizing best with
  | nil => exact failsWith_ok best
  | cons v vs ih =>
    refine failsWith_bind (f.better.apply_ofValues v best) fun better => ?_
    exact failsWith_ite (ih v) (ih best)

theorem Extremum.apply_ofValues (f : Extremum) (vs : List Value) : FailsWith isOfValues (f.apply vs) := by
  unfold Extremum.apply
  split
  · exact failsWith_fault rfl
  · exact failsWith_fault rfl
  · exact f.among_ofValues _ _
  · exact failsWith_fault rfl
  · exact f.among_ofValues _ _

theorem Conversion.apply_ofValues (f : Conversion) (v : Value) : FailsWith isOfValues (f.apply v) := by
  unfold Conversion.apply
  split
  · exact failsWith_map (RealNumber.readInteger_failsOnData _).ofValues
  · exact Builtin.round_ofValues (RealNumber.toInteger_failsOnData _) _ _
  · exact failsWith_map (RealNumber.readFloat_failsOnData _).ofValues
  · exact failsWith_map (Builtin.realArgument_ofValues _ _)
  · exact failsWith_ok _
  · exact failsWith_ok _

theorem Value.length_ofValues (v : Value) : FailsWith isOfValues v.length := by
  unfold Value.length
  split
  · exact failsWith_ok _
  · exact failsWith_ok _
  · exact failsWith_fault rfl

theorem Value.abs_ofValues (v : Value) : FailsWith isOfValues v.abs := by
  unfold Value.abs
  split
  · exact failsWith_map (Whole.checked_failsOnData _).ofValues
  · exact failsWith_ok _
  · exact failsWith_fault rfl

theorem Builtin.apply_ofValues (f : Builtin) {vs : List Value} (h : f.accepts vs.length = true) :
    FailsWith isOfValues (f.apply vs) := by
  unfold Builtin.apply
  split
  · next v =>
    exact failsWith_bind (Builtin.realArgument_ofValues _ v) fun x =>
      failsWith_map (RealNumber.logarithm_failsOnData _ x).ofValues
  · next v w =>
    exact failsWith_bind (Builtin.realArgument_ofValues _ v) fun x =>
      failsWith_bind (Builtin.realArgument_ofValues _ w) fun base =>
        failsWith_map (RealNumber.logBase_failsOnData x base).ofValues
  · next g v =>
    exact failsWith_bind (Builtin.realArgument_ofValues _ v) fun x => failsWith_map (g.apply_failsOnData x).ofValues
  · next g v w =>
    exact failsWith_bind (Builtin.realArgument_ofValues _ v) fun x =>
      failsWith_bind (Builtin.realArgument_ofValues _ w) fun y => failsWith_map (g.apply_failsOnData x y).ofValues
  · next g v => exact Builtin.round_ofValues g.apply_failsOnData _ v
  · next g v => exact failsWith_bind (Builtin.realArgument_ofValues _ v) fun x => failsWith_ok _
  · next v => exact v.abs_ofValues
  · next g v rest => exact g.apply_ofValues _
  · exact failsWith_ok _
  · next g v => exact g.apply_ofValues v
  · next v => exact v.length_ofValues
  · -- every number of arguments that a function takes has been dealt with
    exfalso
    cases f <;> rcases vs with _ | ⟨v, _ | ⟨w, _ | ⟨x, rest⟩⟩⟩ <;> grind [accepts, argumentCounts]

/-- A call with a number of arguments that its function does not take fails for that. -/
theorem Builtin.apply_of_not_accepts {f : Builtin} {vs : List Value} (h : f.accepts vs.length = false) :
    f.apply vs = fault (.argumentCount f vs.length) := by
  unfold Builtin.apply
  split <;> first | rfl | cases h

/-! ### Expressions -/

namespace Expr

/-- The fault of an expression that is out of scope among `n` parameters, or that calls a function with a number of
arguments which it does not take. -/
def scopeFault? (n : Nat) : Expr → Option FaultCause
  | param i => if i < n then none else some (.missingArgument i)
  | call f args => if f.accepts args.length then none else some (.argumentCount f args.length)
  | _ => none

theorem scopeFault?_ofLambda {n : Nat} {e : Expr} {cause : FaultCause} (h : e.scopeFault? n = some cause) :
    isOfLambda cause = true := by
  unfold scopeFault? at h
  split at h
  · split at h <;> cases h
    rfl
  · split at h <;> cases h
    rfl
  · cases h

variable {args : List Value} {P : FaultCause → Bool}

theorem length_of_evalAll : {es : List Expr} → {vs : List Value} → evalAll args es = .ok vs → vs.length = es.length
  | [], _, h => by
    cases h
    rfl
  | e :: es, vs, h => by
    obtain ⟨v, -, hrest⟩ := bind_eq_ok h
    obtain ⟨ws, hws, hcons⟩ := bind_eq_ok hrest
    cases hcons
    rw [List.length_cons, List.length_cons, length_of_evalAll hws]

theorem param_failsWith {i : Nat} (h : ∀ cause, (param i).scopeFault? args.length = some cause → P cause = true) :
    FailsWith P ((param i).eval args) := by
  unfold eval
  split
  · exact failsWith_ok _
  · next hnone =>
    have hout : ¬ i < args.length := Nat.not_lt_of_le (List.getElem?_eq_none_iff.1 hnone)
    exact failsWith_fault (h _ (if_neg hout))

theorem call_failsWith (hP : ∀ cause, isOfValues cause = true → P cause = true) {f : Builtin} {es : List Expr}
    (h : ∀ cause, (call f es).scopeFault? args.length = some cause → P cause = true) {vs : List Value}
    (hlen : vs.length = es.length) : FailsWith P (f.apply vs) := by
  cases haccepts : f.accepts vs.length with
  | true => exact (f.apply_ofValues haccepts).mono hP
  | false =>
    rw [Builtin.apply_of_not_accepts haccepts]
    rw [hlen] at haccepts ⊢
    exact failsWith_fault (h _ (if_neg (by rw [haccepts]; decide)))

mutual

/-- The faults of an expression come from values, or from a subterm out of scope. -/
theorem eval_failsWith (hP : ∀ cause, isOfValues cause = true → P cause = true) : (e : Expr) →
    (∀ x ∈ e.subterms, ∀ cause, x.scopeFault? args.length = some cause → P cause = true) →
    FailsWith P (e.eval args)
  | const v, _ => failsWith_ok v
  | param i, h => param_failsWith (h _ (List.mem_cons_self ..))
  | unary op e, h => by
    obtain ⟨-, he⟩ := List.forall_mem_cons.1 h
    exact failsWith_bind (eval_failsWith hP e he) fun v => (op.apply_ofValues v).mono hP
  | binary op a b, h => by
    obtain ⟨-, hrest⟩ := List.forall_mem_cons.1 h
    obtain ⟨ha, hb⟩ := List.forall_mem_append.1 hrest
    exact failsWith_bind (eval_failsWith hP a ha) fun v =>
      failsWith_bind (eval_failsWith hP b hb) fun w => (op.apply_ofValues v w).mono hP
  | compare first links, h => by
    obtain ⟨-, hrest⟩ := List.forall_mem_cons.1 h
    obtain ⟨hfirst, hlinks⟩ := List.forall_mem_append.1 hrest
    exact failsWith_bind (eval_failsWith hP first hfirst) fun v => evalLinks_failsWith hP v links hlinks
  | and a b, h => by
    obtain ⟨-, hrest⟩ := List.forall_mem_cons.1 h
    obtain ⟨ha, hb⟩ := List.forall_mem_append.1 hrest
    exact failsWith_bind (eval_failsWith hP a ha) fun v => failsWith_ite (eval_failsWith hP b hb) (failsWith_ok v)
  | or a b, h => by
    obtain ⟨-, hrest⟩ := List.forall_mem_cons.1 h
    obtain ⟨ha, hb⟩ := List.forall_mem_append.1 hrest
    exact failsWith_bind (eval_failsWith hP a ha) fun v => failsWith_ite (failsWith_ok v) (eval_failsWith hP b hb)
  | ifElse c y n, h => by
    obtain ⟨-, hrest⟩ := List.forall_mem_cons.1 h
    obtain ⟨hc, hbranches⟩ := List.forall_mem_append.1 hrest
    obtain ⟨hy, hn⟩ := List.forall_mem_append.1 hbranches
    exact failsWith_bind (eval_failsWith hP c hc) fun v =>
      failsWith_ite (eval_failsWith hP y hy) (eval_failsWith hP n hn)
  | call f es, h => by
    obtain ⟨hself, hes⟩ := List.forall_mem_cons.1 h
    intro e he
    -- the values are as many as the expressions, so the function sees the number of arguments that stands in the call
    obtain hargs | ⟨vs, hvs, happly⟩ := bind_eq_error he
    · exact evalAll_failsWith hP es hes e hargs
    · exact call_failsWith hP hself (length_of_evalAll hvs) e happly
  | tuple es, h => by
    obtain ⟨-, hes⟩ := List.forall_mem_cons.1 h
    exact failsWith_bind (evalAll_failsWith hP es hes) fun vs => failsWith_ok _
  | index base i, h => by
    obtain ⟨-, hrest⟩ := List.forall_mem_cons.1 h
    obtain ⟨hbase, hi⟩ := List.forall_mem_append.1 hrest
    exact failsWith_bind (eval_failsWith hP base hbase) fun v =>
      failsWith_bind (eval_failsWith hP i hi) fun w => (v.at_ofValues w).mono hP
  | field _ _, _ => failsWith_fault (hP _ rfl)

theorem evalAll_failsWith (hP : ∀ cause, isOfValues cause = true → P cause = true) : (es : List Expr) →
    (∀ x ∈ subtermsOfAll es, ∀ cause, x.scopeFault? args.length = some cause → P cause = true) →
    FailsWith P (evalAll args es)
  | [], _ => failsWith_ok []
  | e :: es, h => by
    obtain ⟨he, hes⟩ := List.forall_mem_append.1 h
    exact failsWith_bind (eval_failsWith hP e he) fun _ =>
      failsWith_bind (evalAll_failsWith hP es hes) fun _ => failsWith_ok _

theorem evalLinks_failsWith (hP : ∀ cause, isOfValues cause = true → P cause = true) (left : Value) :
    (links : List (CompareOp × Expr)) →
    (∀ x ∈ subtermsOfLinks links, ∀ cause, x.scopeFault? args.length = some cause → P cause = true) →
    FailsWith P (evalLinks args left links)
  | [], _ => failsWith_ok _
  | (op, e) :: links, h => by
    obtain ⟨he, hlinks⟩ := List.forall_mem_append.1 h
    exact failsWith_bind (eval_failsWith hP e he) fun right =>
      failsWith_bind ((op.apply_ofValues left right).mono hP) fun _ =>
        failsWith_ite (evalLinks_failsWith hP right links hlinks) (failsWith_ok _)

end

theorem eval_ofLambda (e : Expr) : FailsWith isOfLambda (e.eval args) :=
  eval_failsWith (fun _ hcause => (Bool.and_eq_true_iff.1 hcause).1) e fun _ _ _ => scopeFault?_ofLambda

end Expr

/-- A lambda does not fail for a missing column. -/
theorem Lambda.eval_ofLambda (f : Lambda) (row : Row) : FailsWith isOfLambda (f.eval row) := by
  refine failsWith_bind ?_ fun args => f.body.eval_ofLambda
  exact failsWith_ite (failsWith_ok _) (failsWith_ite (failsWith_ok _) (failsWith_fault rfl))

end Millrace
