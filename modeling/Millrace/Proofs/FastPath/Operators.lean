import Millrace.Proofs.FastPath.Agreement

/-!
# Lowered operators

A lowered expression simulates an evaluation on a row when its traits hold and its results agree with those of the
evaluation (`Simulates`).  The lowered operators keep this: an operator on lowered operands simulates the operator on
the values of the operands.
-/

namespace Millrace.FastPath

/-- A lowered expression stands for an evaluation with the result `y` on a row. -/
structure Simulates (excused : Fault → Prop) (row : Row) (l : Lowered) (y : RowResult Value) : Prop where
  honest : l.Honest row
  agrees : Agrees excused Eq (l.run row) y

namespace Simulates

variable {excused : Fault → Prop} {row : Row} {y z : RowResult Value} {l m out : Lowered}

/-! ### Views of a lowered expression -/

theorem scalar {k : Scalar} {c : Compute k.Carrier} {traits : Traits}
    (h : Simulates excused row (.scalar k c traits) y) :
    Agrees excused (fun x v => k.toValue x = v) (c row) y :=
  agrees_map_left.1 h.agrees

theorem tuple {items : List Lowered} {traits : Traits} (h : Simulates excused row (.tuple items traits) y) :
    Agrees excused (fun vs v => Value.tuple vs = v) (Lowered.runAll items row) y :=
  agrees_map_left.1 h.agrees

theorem items {items : List Lowered} {traits : Traits} (h : Simulates excused row (.tuple items traits) y) :
    Lowered.AllHonest row items :=
  h.honest.2

theorem number {x : Lowered.NumberView} (h : Simulates excused row l y) (hx : l.number? = some x) :
    Agrees excused (fun n v => v.number? = some n) (x.toNumber row) y := by
  cases l with
  | tuple items traits => cases hx
  | scalar k c traits =>
    cases k with
    | str => cases hx
    | int | float =>
      cases hx
      refine agrees_map_left.2 (h.scalar.mono ?_)
      rintro n v - rfl
      rfl
    | bool =>
      cases hx
      refine agrees_map_left.2 (agrees_map_left.2 (h.scalar.mono ?_))
      rintro n v - rfl
      rfl

theorem integer {c : Compute Int64} (h : Simulates excused row l y) (hc : l.number? = some (.int c)) :
    Agrees excused (fun n v => v.number? = some (.int n)) (c row) y :=
  agrees_map_left.1 (h.number hc)

theorem float {c : Compute Double} (h : Simulates excused row l y) (hc : l.number? = some (.float c)) :
    Agrees excused (fun x v => v = .float x) (c row) y := by
  refine (agrees_map_left.1 (h.number hc)).mono ?_
  intro x v _ hv
  cases v <;> cases hv
  rfl

theorem text {c : Compute String} (h : Simulates excused row l y) (hc : l.text? = some c) :
    Agrees excused (fun s v => v = .str s) (c row) y := by
  cases l with
  | tuple items traits => cases hc
  | scalar k d traits =>
    cases k with
    | str =>
      cases hc
      exact h.scalar.mono fun s v _ hv => hv.symm
    | bool | int | float => cases hc

theorem truthy (h : Simulates excused row l y) :
    Agrees excused (fun b v => v.truthy = b) (l.truthy row) y := by
  cases l with
  | scalar k c traits =>
    refine agrees_map_left.2 (h.scalar.mono ?_)
    rintro x v - rfl
    cases k <;> rfl
  | tuple items traits =>
    change Agrees _ _ (Lowered.ofShape items _ row) y
    rw [Lowered.ofShape_eq h.items, agrees_map_left]
    refine h.tuple.mono ?_
    rintro vs v hvs rfl
    have hlen := Lowered.length_of_runAll hvs
    cases items <;> cases vs <;> simp_all [Value.truthy]

/-- A computed scalar stands for an evaluation whose values it computes. -/
theorem computed {k : Scalar} {c : Compute k.Carrier}
    (h : Agrees excused (fun x v => k.toValue x = v) (c row) y) : Simulates excused row (.computed k c) y :=
  have hrun := agrees_map_left (f := k.toValue) (R := Eq) |>.2 h
  ⟨Lowered.honest_computed hrun.ne_nonconforming, hrun⟩

end Simulates

/-! ### Operations that both sides share -/

section
variable {excused : Fault → Prop} {row : Row} {α β γ : Type} {R : α → Value → Prop} {S : β → Value → Prop}
  {y z : RowResult Value} {c : Compute α} {d : Compute β}

/-- One operand, and an operation on it that both sides share. -/
theorem Agrees.then₁ {k : Scalar} {f : α → RowResult k.Carrier} {g : Value → RowResult Value}
    (h : Agrees excused R (c row) y) (hf : ∀ a, FailsOnData (f a)) (hg : ∀ a v, R a v → g v = k.toValue <$> f a) :
    Agrees excused (fun x v => k.toValue x = v) (c.then₁ f row) (y >>= g) := by
  refine h.bind fun a v _ hav => ?_
  rw [hg a v hav]
  exact ((agrees_reduced (hf a)).mono fun x w _ hxw => by rw [hxw]).map_right

/-- Two operands, and an operation on them that both sides share. -/
theorem Agrees.then₂ {k : Scalar} {f : α → β → RowResult k.Carrier} {g : Value → Value → RowResult Value}
    (h : Agrees excused R (c row) y) (h' : Agrees excused S (d row) z) (hf : ∀ a b, FailsOnData (f a b))
    (hg : ∀ a b v w, R a v → S b w → g v w = k.toValue <$> f a b) :
    Agrees excused (fun x v => k.toValue x = v) (c.then₂ d f row) (do let v ← y; let w ← z; g v w) := by
  refine h.bind fun a v _ hav => h'.bind fun b w _ hbw => ?_
  rw [hg a b v w hav hbw]
  exact ((agrees_reduced (hf a b)).mono fun x u _ hxu => by rw [hxu]).map_right

/-- An operand, and a function of it that cannot fail. -/
theorem Agrees.map₁ {k : Scalar} {f : α → k.Carrier} {g : Value → RowResult Value}
    (h : Agrees excused R (c row) y) (hg : ∀ a v, R a v → g v = .ok (k.toValue (f a))) :
    Agrees excused (fun x v => k.toValue x = v) (c.map f row) (y >>= g) :=
  agrees_map_left.2 (h.bind_right fun a v _ hav => ⟨_, hg a v hav, rfl⟩)

end

/-! ### Unary operators -/

section
variable {excused : Fault → Prop} {row : Row} {y z : RowResult Value} {l m out : Lowered}

theorem neg_of_integer {v : Value} {n : Int64} (h : v.number? = some (.int n)) :
    UnaryOp.neg.apply v = Value.int <$> Whole.neg n := by
  cases v with
  | bool b => cases b <;> cases h <;> rfl
  | int m => cases h; rfl
  | float x => cases h
  | str s => cases h
  | tuple items => cases h

theorem pos_of_integer {v : Value} {n : Int64} (h : v.number? = some (.int n)) :
    UnaryOp.pos.apply v = .ok (.int n) := by
  cases v <;> cases h <;> rfl

theorem unary_simulates {op : UnaryOp} (h : Simulates excused row l y) (hop : l.unary op = .ok out) :
    Simulates excused row out (y >>= op.apply) := by
  cases op with
  | not =>
    cases hop
    exact .computed (h.truthy.map₁ fun b v hv => by rw [← hv]; rfl)
  | neg =>
    simp only [Lowered.unary] at hop
    split at hop
    · next c hc =>
      cases hop
      exact .computed ((h.integer hc).then₁ (fun _ => Whole.checked_failsOnData _) fun n v hv => neg_of_integer hv)
    · next c hc =>
      cases hop
      exact .computed ((h.float hc).map₁ fun x v hv => by rw [hv]; rfl)
    · cases hop
  | pos =>
    simp only [Lowered.unary] at hop
    split at hop
    · next c hc =>
      cases hop
      exact .computed ((h.integer hc).bind_right fun n v _ hv => ⟨_, pos_of_integer hv, rfl⟩)
    · next c hc =>
      cases hop
      exact .computed ((h.float hc).bind_right fun x v _ hv => ⟨.float x, by rw [hv]; rfl, rfl⟩)
    · cases hop

/-! ### Arithmetic -/

theorem apply_of_integers (op : BinaryOp) {v w : Value} {a b : Int64} (hv : v.number? = some (.int a))
    (hw : w.number? = some (.int b)) : op.apply v w = op.onIntegers a b := by
  simp only [BinaryOp.apply, hv, hw, BinaryOp.onNumbers]

theorem apply_of_floats (op : BinaryOp) {v w : Value} {a b : Number} (hv : v.number? = some a)
    (hw : w.number? = some b) (h : ∀ i j, ¬ (a = .int i ∧ b = .int j)) :
    op.apply v w = Value.float <$> op.onFloats a.toDouble b.toDouble := by
  simp only [BinaryOp.apply, hv, hw]
  cases a with
  | float x => rfl
  | int i =>
    cases b with
    | float y => rfl
    | int j => exact absurd ⟨rfl, rfl⟩ (h i j)

/-- An integer operand that is known beforehand has that value. -/
theorem Simulates.integer_constant {d : Compute Int64} {n : Int64} (h : Simulates excused row m z)
    (hd : m.number? = some (.int d)) (hn : m.constantInt? = some n) : d row = .ok n := by
  obtain ⟨w, hw, hwn⟩ := Lowered.run_of_constantInt? h.honest hn
  have hsim : Simulates excused row m (.ok w) := ⟨h.honest, by rw [hw]; exact .value rfl⟩
  have hint := hsim.integer hd
  cases hc : d row with
  | error r => rw [hc] at hint; cases hint
  | ok n' =>
    rw [hc] at hint
    have hrel := hint.rel
    rw [hwn] at hrel
    cases hrel
    rfl

theorem integers_simulates {op : BinaryOp} {c d : Compute Int64} (h : Simulates excused row l y)
    (h' : Simulates excused row m z) (hl : l.number? = some (.int c)) (hm : m.number? = some (.int d))
    (hop : Lowered.integers op c d m.constantInt? = .ok out) :
    Simulates excused row out (do let v ← y; let w ← z; op.apply v w) := by
  have hc := h.integer hl
  have hd := h'.integer hm
  cases op with
  | add | sub | mul =>
    cases hop
    exact .computed (hc.then₂ hd (fun _ _ => Whole.checked_failsOnData _)
      fun a b v w hv hw => apply_of_integers _ hv hw)
  | div =>
    cases hop
    exact .computed (hc.then₂ hd Whole.trueDiv_failsOnData fun a b v w hv hw => apply_of_integers _ hv hw)
  | floorDiv =>
    cases hop
    exact .computed (hc.then₂ hd Whole.floorDiv_failsOnData fun a b v w hv hw => apply_of_integers _ hv hw)
  | mod =>
    cases hop
    exact .computed (hc.then₂ hd Whole.mod_failsOnData fun a b v w hv hw => apply_of_integers _ hv hw)
  | pow =>
    simp only [Lowered.integers] at hop
    split at hop
    · next n hn =>
      -- the exponent is still evaluated by the general evaluator, and has the value `n` there
      have hrun : d row = .ok n := h'.integer_constant hm hn
      have hexp := hd.mono fun b w hb hw => (⟨Except.ok.inj (hb.symm.trans hrun), hw⟩ :
        b = n ∧ w.number? = some (.int b))
      split at hop
      · next hpos =>
        cases hop
        refine .computed ?_
        rw [show c.then₁ (Whole.pow · n) row = c.then₂ d Whole.pow row by
          simp only [Compute.then₁, Compute.then₂, hrun]; rfl]
        refine hc.then₂ hexp Whole.pow_failsOnData ?_
        rintro a b v w hv ⟨rfl, hw⟩
        rw [apply_of_integers _ hv hw]
        simp only [BinaryOp.onIntegers, hpos, ↓reduceIte]
        rfl
      · next hneg =>
        cases hop
        refine .computed ?_
        rw [show c.then₁ (RealNumber.wholePower · n) row = c.then₂ d RealNumber.wholePower row by
          simp only [Compute.then₁, Compute.then₂, hrun]; rfl]
        refine hc.then₂ hexp RealNumber.wholePower_failsOnData ?_
        rintro a b v w hv ⟨rfl, hw⟩
        rw [apply_of_integers _ hv hw]
        simp only [BinaryOp.onIntegers, hneg, ↓reduceIte]
        rfl
    · cases hop

/-- A lowered number as a float, with the number that it is made of. -/
theorem Simulates.toDouble {x : Lowered.NumberView} (h : Simulates excused row l y) (hx : l.number? = some x) :
    Agrees excused (fun f v => ∃ n, x.toNumber row = .ok n ∧ v.number? = some n ∧ n.toDouble = f)
      (x.toDouble row) y := by
  have heq : x.toDouble row = Number.toDouble <$> x.toNumber row := by
    cases x with
    | int c => simp only [Lowered.NumberView.toDouble, Lowered.NumberView.toNumber, Compute.map]; cases c row <;> rfl
    | float c => simp only [Lowered.NumberView.toDouble, Lowered.NumberView.toNumber, Compute.map]; cases c row <;> rfl
  rw [heq, agrees_map_left]
  exact (h.number hx).mono fun n v hn hv => ⟨n, hn, hv, rfl⟩

private theorem not_int_of_toNumber {c : Compute Double} {n : Number}
    (h : (Lowered.NumberView.float c).toNumber row = .ok n) (i : Int64) : n ≠ .int i := by
  rintro rfl
  simp only [Lowered.NumberView.toNumber, Compute.map] at h
  cases hc : c row with
  | error r => rw [hc] at h; cases h
  | ok x => rw [hc] at h; cases h

theorem floats_simulates {op : BinaryOp} {a b : Lowered.NumberView} (h : Simulates excused row l y)
    (h' : Simulates excused row m z) (hl : l.number? = some a) (hm : m.number? = some b)
    (hfloat : (∃ c, a = .float c) ∨ ∃ c, b = .float c) :
    Simulates excused row (.computed .float (a.toDouble.then₂ b.toDouble op.onFloats))
      (do let v ← y; let w ← z; op.apply v w) := by
  refine .computed ((h.toDouble hl).then₂ (h'.toDouble hm) op.onFloats_failsOnData ?_)
  rintro f g v w ⟨n, hn, hv, rfl⟩ ⟨k, hk, hw, rfl⟩
  apply apply_of_floats op hv hw
  rintro i j ⟨rfl, rfl⟩
  rcases hfloat with ⟨c, rfl⟩ | ⟨c, rfl⟩
  · exact not_int_of_toNumber hn i rfl
  · exact not_int_of_toNumber hk j rfl

end
end Millrace.FastPath
