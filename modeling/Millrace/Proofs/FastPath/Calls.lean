import Mathlib.Data.String.Basic
import Millrace.Proofs.FastPath.Operators
import Millrace.Proofs.Number.Order

/-!
# Lowered calls

A lowered call simulates the call of the function with the values of the arguments.  The greatest or least of
several scalars is found by the order of their type, which is the comparison that the evaluator makes
(`better_of_less`).
-/

namespace Millrace.FastPath

/-- Lowered expressions stand for evaluations from left to right, with the result `ys` altogether. -/
inductive SimulatesAll (excused : Fault → Prop) (row : Row) : List Lowered → RowResult (List Value) → Prop
  | nil : SimulatesAll excused row [] (.ok [])
  | cons {l : Lowered} {ls : List Lowered} {y : RowResult Value} {ys : RowResult (List Value)} :
    Simulates excused row l y → SimulatesAll excused row ls ys →
      SimulatesAll excused row (l :: ls) (do let v ← y; let vs ← ys; return v :: vs)

section
variable {excused : Fault → Prop} {row : Row} {y z : RowResult Value} {ys : RowResult (List Value)}
  {l m out : Lowered} {ls items rest : List Lowered} {β : Type}

theorem SimulatesAll.honest (h : SimulatesAll excused row ls ys) : Lowered.AllHonest row ls := by
  induction h with
  | nil => trivial
  | cons hl _ ih => exact ⟨hl.honest, ih⟩

theorem SimulatesAll.agrees (h : SimulatesAll excused row ls ys) : Agrees excused Eq (Lowered.runAll ls row) ys := by
  induction h with
  | nil => exact .value rfl
  | cons hl _ ih =>
    rw [Lowered.runAll_cons]
    refine hl.agrees.bind fun v v' _ hv => ih.bind fun vs vs' _ hvs => ?_
    rw [hv, hvs]
    exact .value rfl

/-- Lowered expressions side by side make a lowered tuple. -/
theorem tuple_simulates (h : SimulatesAll excused row ls ys) :
    Simulates excused row (.tuple ls ⟨ls.all Lowered.infallible, none⟩) (do let vs ← ys; return .tuple vs) :=
  ⟨Lowered.honest_tuple h.honest (Lowered.exists_runAll_of_all h.honest),
    agrees_map_left.2 (h.agrees.bind_right fun vs ws _ hvs => ⟨.tuple ws, rfl, by rw [hvs]⟩)⟩

theorem SimulatesAll.one (h : SimulatesAll excused row [l] ys) :
    ∃ y, Simulates excused row l y ∧ ∀ g : List Value → RowResult Value, ys >>= g = y >>= fun v => g [v] := by
  cases h with
  | @cons _ _ y _ hl hrest =>
    cases hrest
    refine ⟨y, hl, fun g => ?_⟩
    cases y <;> rfl

theorem SimulatesAll.two (h : SimulatesAll excused row [l, m] ys) :
    ∃ y z, Simulates excused row l y ∧ Simulates excused row m z ∧
      ∀ g : List Value → RowResult Value, ys >>= g = (do let v ← y; let w ← z; g [v, w]) := by
  cases h with
  | @cons _ _ y zs hl hrest =>
    obtain ⟨z, hm, hz⟩ := hrest.one
    refine ⟨y, z, hl, hm, fun g => ?_⟩
    cases y with
    | error e => rfl
    | ok v =>
      change (zs >>= fun ws => pure (v :: ws)) >>= g = z >>= fun w => g [v, w]
      rw [bind_assoc]
      exact hz fun ws => g (v :: ws)

/-! ### The greatest and the least -/

theorem Scalar.apply_lt (k : Scalar) (a b : k.Carrier) :
    CompareOp.lt.apply (k.toValue a) (k.toValue b) = .ok (k.less a b) := by
  cases k with
  | bool => cases a <;> cases b <;> rfl
  | int =>
    change Except.ok (compare a.toInt b.toInt == .lt) = Except.ok (decide (a < b))
    congr 1
    rw [Bool.eq_iff_iff]
    simp [Int64.lt_iff_toInt_lt, compare_lt_iff_lt]
  | float =>
    change Except.ok (CompareOp.lt.onNumbers (.float a) (.float b)) = Except.ok (decide (a < b))
    congr 1
    rw [Bool.eq_iff_iff, decide_eq_true_iff, ← Number.order_float_eq_lt]
    simp only [CompareOp.onNumbers]
    cases Number.order (.float a) (.float b) with
    | none => simp
    | some o => simp [CompareOp.test]
  | str =>
    change Except.ok (compare a b == .lt) = Except.ok (decide (a < b))
    congr 1
    rw [Bool.eq_iff_iff]
    simp [compare_lt_iff_lt]

theorem gt_onNumbers (a b : Number) : CompareOp.gt.onNumbers a b = CompareOp.lt.onNumbers b a := by
  simp only [CompareOp.onNumbers, Number.order_swap a b]
  cases a.order b with
  | none => rfl
  | some o => cases o <;> rfl

theorem Scalar.apply_gt (k : Scalar) (a b : k.Carrier) :
    CompareOp.gt.apply (k.toValue a) (k.toValue b) = .ok (k.less b a) := by
  rw [← Scalar.apply_lt]
  cases k with
  | bool | int | float => exact congrArg Except.ok (gt_onNumbers _ _)
  | str =>
    change Except.ok (compare a b == .gt) = Except.ok (compare b a == .lt)
    congr 1
    rw [Bool.eq_iff_iff]
    simp [compare_gt_iff_gt, compare_lt_iff_lt]

/-- The evaluator replaces the best scalar so far by the comparison of its type. -/
theorem better_of_less (f : Extremum) (k : Scalar) (a b : k.Carrier) :
    f.better.apply (k.toValue a) (k.toValue b) =
      .ok ((match f with | .max => fun a b => k.less b a | .min => k.less : k.Carrier → k.Carrier → Bool) a b) := by
  cases f with
  | min => exact k.apply_lt a b
  | max => exact k.apply_gt a b

/-- The order by which a search replaces the best scalar so far. -/
theorem extremumOf_cons {f : Extremum} {k : Scalar} {first : Compute k.Carrier} {traits : Traits}
    (hop : Lowered.extremumOf f (.scalar k first traits :: rest) = .ok out) :
    ∃ others better, Lowered.scalarsOf? k rest = some others ∧
      (∀ a b, f.better.apply (k.toValue a) (k.toValue b) = .ok (better a b)) ∧
      out = .computed k (fun row => first row >>= fun best => Lowered.runExtremum better best others row) := by
  simp only [Lowered.extremumOf] at hop
  split at hop
  · cases hop
  · next others hothers =>
    cases hop
    exact ⟨others, _, hothers, better_of_less f k, rfl⟩

theorem scalarsOf?_cons {k : Scalar} {cs : List (Compute k.Carrier)}
    (h : Lowered.scalarsOf? k (l :: rest) = some cs) :
    ∃ c traits others, l = .scalar k c traits ∧ Lowered.scalarsOf? k rest = some others ∧ cs = c :: others := by
  cases l with
  | tuple items traits => cases h
  | scalar k' c traits =>
    simp only [Lowered.scalarsOf?] at h
    split at h
    · next hk =>
      subst hk
      rw [Option.map_eq_some_iff] at h
      obtain ⟨others, hothers, rfl⟩ := h
      exact ⟨c, traits, others, rfl, hothers, rfl⟩
    · cases h

theorem runAll_scalar_cons (k : Scalar) (c : Compute k.Carrier) (traits : Traits) :
    Lowered.runAll (.scalar k c traits :: rest) row =
      (do let x ← c row; let vs ← Lowered.runAll rest row; return k.toValue x :: vs) := by
  change ((k.toValue <$> c row) >>= _) = _
  cases c row <;> rfl

/-- The search among lowered scalars finds what the search among their values finds. -/
theorem runExtremum_spec {f : Extremum} {k : Scalar} {better : k.Carrier → k.Carrier → Bool}
    {others : List (Compute k.Carrier)}
    (hbetter : ∀ a b, f.better.apply (k.toValue a) (k.toValue b) = .ok (better a b))
    (hothers : Lowered.scalarsOf? k rest = some others) (best : k.Carrier) :
    (∀ vs, Lowered.runAll rest row = .ok vs → ∃ x, Lowered.runExtremum better best others row = .ok x ∧
      f.among (k.toValue best) vs = .ok (k.toValue x)) ∧
    ∀ r, Lowered.runAll rest row = .error r → Lowered.runExtremum better best others row = .error r := by
  induction rest generalizing others best with
  | nil =>
    cases hothers
    refine ⟨fun vs hvs => ?_, fun r hr => (nomatch hr)⟩
    cases hvs
    exact ⟨best, rfl, rfl⟩
  | cons l rest ih =>
    obtain ⟨c, traits, others, rfl, hrest, rfl⟩ := scalarsOf?_cons hothers
    rw [runAll_scalar_cons, Lowered.runExtremum]
    cases c row with
    | error r => exact ⟨fun vs hvs => (nomatch hvs), fun r' hr => by cases hr; rfl⟩
    | ok x =>
      obtain ⟨hvalue, herror⟩ := ih hrest (if better x best then x else best)
      cases hr : Lowered.runAll rest row with
      | error r => exact ⟨fun vs hvs => (nomatch hvs), fun r' hr' => by cases hr'; exact herror r hr⟩
      | ok ws =>
        refine ⟨fun vs hvs => ?_, fun r hr => (nomatch hr)⟩
        cases hvs
        obtain ⟨y, hy, hamong⟩ := hvalue ws hr
        refine ⟨y, hy, ?_⟩
        rw [← hamong, Extremum.among, hbetter]
        change (if better x best = true then f.among (k.toValue x) ws else f.among (k.toValue best) ws) = _
        split <;> rfl

/-- The search among lowered items, against the search among the values of the items. -/
theorem extremumOf_simulates {f : Extremum} {R : List Value → β → Prop} {g : β → RowResult Value} {y : RowResult β}
    (h : Agrees excused R (Lowered.runAll items row) y) (hop : Lowered.extremumOf f items = .ok out)
    (hg : ∀ v vs b, R (v :: vs) b → g b = f.among v vs) : Simulates excused row out (y >>= g) := by
  cases items with
  | nil => cases hop
  | cons l rest =>
    cases l with
    | tuple items traits => cases hop
    | scalar k first traits =>
      obtain ⟨others, better, hothers, hbetter, rfl⟩ := extremumOf_cons hop
      rw [runAll_scalar_cons] at h
      refine .computed (h.follow (fun vs b hvs hb => ?_) fun r hr hne => ⟨r, hne, ?_⟩)
      · cases hfirst : first row with
        | error r => rw [hfirst] at hvs; cases hvs
        | ok best =>
          cases hr : Lowered.runAll rest row with
          | error r => rw [hfirst, hr] at hvs; cases hvs
          | ok ws =>
            rw [hfirst, hr] at hvs
            cases hvs
            obtain ⟨x, hx, hamong⟩ := (runExtremum_spec hbetter hothers best).1 ws hr
            rw [hg _ _ _ hb, hamong]
            change Agrees _ _ (Lowered.runExtremum better best others row) _
            rw [hx]
            exact .value rfl
      · cases hfirst : first row with
        | error r' => rw [hfirst] at hr; cases hr; rfl
        | ok best =>
          cases hs : Lowered.runAll rest row with
          | ok ws => rw [hfirst, hs] at hr; cases hr
          | error r' =>
            -- the items of a tuple and the search for the best stop at the same item
            rw [hfirst, hs] at hr
            cases hr
            exact (runExtremum_spec hbetter hothers best).2 _ hs

theorem extremum_simulates {f : Extremum} (h : SimulatesAll excused row ls ys)
    (hop : Lowered.extremum f ls = .ok out) : Simulates excused row out (ys >>= f.apply) := by
  unfold Lowered.extremum at hop
  split at hop
  · next items traits =>
    obtain ⟨y, hl, hys⟩ := h.one
    rw [hys]
    refine extremumOf_simulates hl.tuple hop fun v vs b hb => ?_
    rw [← hb]
    rfl
  · cases hop
  · next htuple hscalar =>
    -- a single argument would have been one of the cases before
    have hlen : ls.length ≠ 1 := by
      intro hone
      obtain ⟨l, rfl⟩ := List.length_eq_one_iff.1 hone
      cases l with
      | tuple items traits => exact htuple _ _ rfl
      | scalar k c traits => exact hscalar _ _ _ rfl
    have hargs : Agrees excused (fun vs ws => vs = ws ∧ vs.length = ls.length) (Lowered.runAll ls row) ys :=
      h.agrees.mono fun vs ws hvs hws => ⟨hws, Lowered.length_of_runAll hvs⟩
    refine extremumOf_simulates hargs hop ?_
    rintro v vs b ⟨rfl, hvs⟩
    cases vs with
    | nil => exact absurd hvs.symm hlen
    | cons w vs => simp only [Extremum.apply]

/-! ### Conversions -/

theorem realArgument_of_number (f : Builtin) {v : Value} {x : Number} (hv : v.number? = some x) :
    f.realArgument v = .ok x.toDouble := by
  simp only [Builtin.realArgument, hv]

theorem round_of_integer (f : Builtin) (rounding : Double → RowResult Int64) {v : Value} {n : Int64}
    (hv : v.number? = some (.int n)) : f.round rounding v = .ok (.int n) := by
  simp only [Builtin.round, hv]

theorem convertNothing_simulates (f : Conversion) :
    Simulates excused row (Lowered.convertNothing f) (.ok f.default) := by
  cases f <;> exact .computed (.value rfl)

theorem convert_number {v : Value} {x : Number} (hv : v.number? = some x) (f : Conversion) :
    f.apply v = match f with
      | .int => (Builtin.convert .int).round RealNumber.truncate v
      | .float => .ok (.float x.toDouble)
      | .bool => .ok (.bool v.truthy)
      | .str => .ok (.str v.text) := by
  cases v with
  | str s | tuple items => cases hv
  | bool b | int n | float y =>
    cases f with
    | float => cases hv; rfl
    | int | bool | str => rfl

theorem convert_simulates {f : Conversion} (h : Simulates excused row l y) (hop : Lowered.convert f l = .ok out) :
    Simulates excused row out (y >>= f.apply) := by
  cases f with
  | bool =>
    cases hop
    exact .computed (h.truthy.bind_right fun b v _ hv => ⟨_, rfl, by rw [hv]; rfl⟩)
  | str =>
    simp only [Lowered.convert] at hop
    split at hop
    · next c hc =>
      cases hop
      exact .computed ((h.text hc).bind_right fun s v _ hv => ⟨_, rfl, by rw [hv]; rfl⟩)
    · cases hop
      exact .computed (h.agrees.map₁ (k := .str) fun v w hv => by rw [hv]; rfl)
  | int =>
    simp only [Lowered.convert] at hop
    split at hop
    · next c _ hc =>
      cases hop
      exact .computed ((h.text hc).then₁ RealNumber.readInteger_failsOnData fun s v hv => by rw [hv]; rfl)
    · next c htext hc =>
      cases hop
      refine .computed ((h.integer hc).bind_right fun n v _ hv => ⟨_, ?_, rfl⟩)
      rw [convert_number hv]
      exact round_of_integer _ _ hv
    · next c htext hc =>
      cases hop
      refine .computed ((h.float hc).then₁ (RealNumber.toInteger_failsOnData _) fun x v hv => ?_)
      rw [hv]
      rfl
    · cases hop
  | float =>
    simp only [Lowered.convert] at hop
    split at hop
    · next c _ hc =>
      cases hop
      exact .computed ((h.text hc).then₁ RealNumber.readFloat_failsOnData fun s v hv => by rw [hv]; rfl)
    · next x htext hx =>
      cases hop
      refine .computed ((h.toDouble hx).bind_right ?_)
      rintro x v - ⟨n, -, hv, rfl⟩
      exact ⟨_, convert_number hv .float, rfl⟩
    · cases hop

/-! ### All functions -/

theorem realArgument_agrees {f : Builtin} {c : Compute Double} (h : Simulates excused row l y)
    (hc : Lowered.realArgument f l = .ok c) :
    Agrees excused (fun x v => f.realArgument v = .ok x) (c row) y := by
  unfold Lowered.realArgument at hc
  split at hc
  · next x hx =>
    cases hc
    refine (h.toDouble hx).mono ?_
    rintro x v - ⟨n, -, hv, rfl⟩
    exact realArgument_of_number f hv
  · cases hc

/-- A function of one real number. -/
theorem real_call_simulates {f : Builtin} {k : Scalar} {g : Double → RowResult k.Carrier}
    (h : SimulatesAll excused row [l] ys) (hg : ∀ x, FailsOnData (g x))
    (hf : ∀ v x, f.realArgument v = .ok x → f.apply [v] = k.toValue <$> g x)
    (hop : Lowered.realArgument f l >>= (fun c => .ok (Lowered.computed k (c.then₁ g))) = .ok out) :
    Simulates excused row out (ys >>= f.apply) := by
  obtain ⟨y, hl, hys⟩ := h.one
  obtain ⟨c, hc, hout⟩ := bind_eq_ok hop
  cases hout
  rw [hys]
  exact .computed ((realArgument_agrees hl hc).then₁ hg fun x v hv => hf v x hv)

/-- A function of two real numbers. -/
theorem real_call₂_simulates {f : Builtin} {g : Double → Double → RowResult Double}
    (h : SimulatesAll excused row [l, m] ys) (hg : ∀ x x', FailsOnData (g x x'))
    (hf : ∀ v w x x', f.realArgument v = .ok x → f.realArgument w = .ok x' →
      f.apply [v, w] = Value.float <$> g x x')
    (hop : (do let c ← Lowered.realArgument f l; let d ← Lowered.realArgument f m
               return Lowered.computed .float (c.then₂ d g)) = .ok out) :
    Simulates excused row out (ys >>= f.apply) := by
  obtain ⟨y, z, hl, hm, hys⟩ := h.two
  obtain ⟨c, hc, hrest⟩ := bind_eq_ok hop
  obtain ⟨d, hd, hout⟩ := bind_eq_ok hrest
  cases hout
  rw [hys]
  exact .computed ((realArgument_agrees hl hc).then₂ (realArgument_agrees hm hd) hg
    fun x x' v w hv hw => hf v w x x' hv hw)

theorem call_simulates {f : Builtin} (h : SimulatesAll excused row ls ys) (hop : Lowered.call f ls = .ok out) :
    Simulates excused row out (ys >>= f.apply) := by
  unfold Lowered.call at hop
  split at hop
  · refine real_call_simulates h (RealNumber.logarithm_failsOnData _) (fun v x hv => ?_) hop
    simp only [Builtin.apply, hv]
    rfl
  · refine real_call₂_simulates h RealNumber.logBase_failsOnData (fun v w x x' hv hw => ?_) hop
    simp only [Builtin.apply, hv, hw]
    rfl
  · refine real_call_simulates h (RealFunction.apply_failsOnData _) (fun v x hv => ?_) hop
    simp only [Builtin.apply, hv]
    rfl
  · refine real_call₂_simulates h (PairFunction.apply_failsOnData _) (fun v w x x' hv hw => ?_) hop
    simp only [Builtin.apply, hv, hw]
    rfl
  · obtain ⟨y, hl, hys⟩ := h.one
    rw [hys]
    split at hop
    · next c hc =>
      cases hop
      exact .computed ((hl.integer hc).bind_right fun n v _ hv => ⟨_, round_of_integer _ _ hv, rfl⟩)
    · next c hc =>
      cases hop
      exact .computed ((hl.float hc).then₁ (Rounding.apply_failsOnData _) fun x v hv => by rw [hv]; rfl)
    · cases hop
  · obtain ⟨y, hl, hys⟩ := h.one
    obtain ⟨c, hc, hout⟩ := bind_eq_ok hop
    cases hout
    rw [hys]
    refine .computed ((realArgument_agrees hl hc).map₁ fun x v hv => ?_)
    simp only [Builtin.apply, hv]
    rfl
  · obtain ⟨y, hl, hys⟩ := h.one
    rw [hys]
    split at hop
    · next c hc =>
      cases hop
      refine .computed ((hl.integer hc).then₁ (fun _ => Whole.checked_failsOnData _) fun n v hv => ?_)
      simp only [Builtin.apply, Value.abs, hv]
      rfl
    · next c hc =>
      cases hop
      exact .computed ((hl.float hc).map₁ fun x v hv => by rw [hv]; rfl)
    · cases hop
  · next g l rest =>
    rw [show ys >>= (Builtin.extremum g).apply = ys >>= g.apply from ?_]
    · exact extremum_simulates h hop
    · cases h with
      | @cons _ _ y zs _ _ =>
        cases y with
        | error e => rfl
        | ok v => cases zs <;> rfl
  · cases h
    cases hop
    exact convertNothing_simulates _
  · obtain ⟨y, hl, hys⟩ := h.one
    rw [hys]
    exact convert_simulates hl hop
  · next c traits =>
    obtain ⟨y, hl, hys⟩ := h.one
    cases hop
    rw [hys]
    exact .computed (hl.scalar.map₁ fun s v hv => by rw [← hv]; rfl)
  · next items traits =>
    obtain ⟨y, hl, hys⟩ := h.one
    cases hop
    rw [hys]
    refine .computed ?_
    rw [Lowered.ofShape_eq hl.items, agrees_map_left]
    refine hl.tuple.bind_right fun vs v hvs hv => ⟨_, ?_, rfl⟩
    rw [← hv, ← Lowered.length_of_runAll hvs]
    rfl
  · cases hop
  · cases hop

end
end Millrace.FastPath
