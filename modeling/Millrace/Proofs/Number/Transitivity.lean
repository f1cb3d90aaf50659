import Millrace.Proofs.Number.Conversion

/-!
# Chains of numbers

The strict order of numbers is transitive (`Number.order_lt_trans`), for integers, for floats, and also where integers
are compared exactly with integers and rounded with floats, because rounding keeps the weak order.  Equality is not:
two integers may be rounded to one float.  Where no such pair meets its float (`Number.Sharp`), equal and less
compose in every order (`Number.order_trans`).
-/

namespace Millrace

/-! ### Floats -/

section
variable {x y z : Float} {o : Ordering}

theorem float_le_of_order (h : floatOrder x y = some o) (ho : o ≠ .gt) : x ≤ y := by
  have h' : x.toModel.unpack.compare y.toModel.unpack = some o := h
  rw [float_le_iff, Float.Model.UnpackedFloat.le, h']
  cases o with
  | lt | eq => rfl
  | gt => exact absurd rfl ho

theorem order_of_float_le (h : x ≤ y) : floatOrder x y = some .lt ∨ floatOrder x y = some .eq := by
  rw [float_le_iff, Float.Model.UnpackedFloat.le] at h
  change Option.any _ (floatOrder x y) = true at h
  cases ho : floatOrder x y with
  | none =>
    rw [ho] at h
    cases h
  | some o =>
    rw [ho] at h
    cases o with
    | lt => exact Or.inl rfl
    | eq => exact Or.inr rfl
    | gt => cases h

theorem floatOrder_eq_comm : floatOrder x y = some .eq ↔ floatOrder y x = some .eq := by
  rw [floatOrder_swap y x]
  cases floatOrder y x with
  | none => simp
  | some o => cases o <;> simp

theorem floatOrder_eq_iff : floatOrder x y = some .eq ↔ x ≤ y ∧ y ≤ x := by
  constructor
  · intro h
    exact ⟨float_le_of_order h (by decide), float_le_of_order (floatOrder_eq_comm.1 h) (by decide)⟩
  · rintro ⟨hle, hge⟩
    rcases order_of_float_le hle with hlt | heq
    · exact absurd (float_lt_iff.2 hlt) (not_float_lt_of_le hge)
    · exact heq

theorem float_le_of_lt (h : x < y) : x ≤ y := float_le_of_order (float_lt_iff.1 h) (by decide)

theorem float_lt_of_le_of_not_le (hle : x ≤ y) (hnot : ¬ y ≤ x) : x < y := by
  rcases order_of_float_le hle with hlt | heq
  · exact float_lt_iff.2 hlt
  · exact absurd (floatOrder_eq_iff.1 heq).2 hnot

theorem float_lt_of_le_of_lt (hxy : x ≤ y) (hyz : y < z) : x < z := by
  refine float_lt_of_le_of_not_le (float_le_trans hxy (float_le_of_lt hyz)) fun hzx => ?_
  exact not_float_lt_of_le (float_le_trans hzx hxy) hyz

theorem float_lt_of_lt_of_le (hxy : x < y) (hyz : y ≤ z) : x < z := by
  refine float_lt_of_le_of_not_le (float_le_trans (float_le_of_lt hxy) hyz) fun hzx => ?_
  exact not_float_lt_of_le (float_le_trans hyz hzx) hxy

end

namespace Number

variable {x y z : Number} {o₁ o₂ : Ordering} {a b : Int64} {t : Double}

/-! ### Numbers of both kinds -/

theorem order_int_float (a : Int64) (t : Double) :
    order (.int a) (.float t) = floatOrder (Whole.toFloat a) t.toFloat :=
  order_eq_floatOrder fun _ _ h => nomatch h.2

theorem order_float_int (t : Double) (a : Int64) :
    order (.float t) (.int a) = floatOrder t.toFloat (Whole.toFloat a) :=
  order_eq_floatOrder fun _ _ h => nomatch h.1

theorem order_int_eq_lt : order (.int a) (.int b) = some .lt ↔ a.toInt < b.toInt := by
  simp [order, compare_lt_iff_lt]

theorem order_int_eq_eq : order (.int a) (.int b) = some .eq ↔ a = b := by
  simp [order, Int64.toInt_inj]

/-- What is less or equal stays so when both sides are rounded. -/
theorem toFloat_le_of_order (h : order x y = some o₁) (ho : o₁ ≠ .gt) : x.toFloat ≤ y.toFloat := by
  by_cases hints : ∃ m n, x = .int m ∧ y = .int n
  · obtain ⟨m, n, rfl, rfl⟩ := hints
    apply Whole.toFloat_le
    cases Option.some.inj h
    exact not_lt.1 fun hlt => ho (compare_gt_iff_gt.2 hlt)
  · rw [order_eq_floatOrder fun m n hmn => hints ⟨m, n, hmn⟩] at h
    exact float_le_of_order h ho

/-- What is less after rounding was less before. -/
theorem order_of_toFloat_lt (h : x.toFloat < y.toFloat) : order x y = some .lt := by
  by_cases hints : ∃ m n, x = .int m ∧ y = .int n
  · obtain ⟨m, n, rfl, rfl⟩ := hints
    rw [order_int_eq_lt]
    by_contra hge
    exact not_float_lt_of_le (Whole.toFloat_le (not_lt.1 hge)) h
  · rw [order_eq_floatOrder fun m n hmn => hints ⟨m, n, hmn⟩]
    exact float_lt_iff.1 h

theorem toFloat_lt_of_order (hints : ∀ m n, ¬ (x = .int m ∧ y = .int n)) (h : order x y = some .lt) :
    x.toFloat < y.toFloat := by
  rw [order_eq_floatOrder hints] at h
  exact float_lt_iff.2 h

/-- The strict order of numbers is transitive. -/
theorem order_lt_trans (hxy : order x y = some .lt) (hyz : order y z = some .lt) : order x z = some .lt := by
  have hle := toFloat_le_of_order hxy (by decide)
  have hle' := toFloat_le_of_order hyz (by decide)
  by_cases hleft : ∃ m n, x = .int m ∧ y = .int n
  · by_cases hright : ∃ m n, y = .int m ∧ z = .int n
    · obtain ⟨m, n, rfl, rfl⟩ := hleft
      obtain ⟨-, k, -, rfl⟩ := hright
      rw [order_int_eq_lt] at *
      exact hxy.trans hyz
    · have hlt := toFloat_lt_of_order (fun m n hmn => hright ⟨m, n, hmn⟩) hyz
      exact order_of_toFloat_lt (float_lt_of_le_of_lt hle hlt)
  · have hlt := toFloat_lt_of_order (fun m n hmn => hleft ⟨m, n, hmn⟩) hxy
    exact order_of_toFloat_lt (float_lt_of_lt_of_le hlt hle')

/-! ### Equality -/

/-- No two of the integers are equal to the same of the floats. -/
def Sharp (S : Number → Prop) : Prop :=
  ∀ m n t, S (.int m) → S (.int n) → S (.float t) →
    order (.int m) (.float t) = some .eq → order (.int n) (.float t) = some .eq → m = n

theorem order_eq_comm : order x y = some .eq ↔ order y x = some .eq := by
  rw [order_swap y x]
  cases order y x with
  | none => simp
  | some o => cases o <;> simp

section
variable {S : Number → Prop} (hS : Sharp S) (hx : S x) (hy : S y) (hz : S z)
include hS hx hy hz

theorem order_eq_trans (hxy : order x y = some .eq) (hyz : order y z = some .eq) : order x z = some .eq := by
  have hle := float_le_trans (toFloat_le_of_order hxy (by decide)) (toFloat_le_of_order hyz (by decide))
  have hge := float_le_trans (toFloat_le_of_order (order_eq_comm.1 hyz) (by decide))
    (toFloat_le_of_order (order_eq_comm.1 hxy) (by decide))
  by_cases hints : ∃ m n, x = .int m ∧ z = .int n
  · obtain ⟨m, n, rfl, rfl⟩ := hints
    cases y with
    | int k =>
      rw [order_int_eq_eq] at *
      exact hxy.trans hyz
    | float t => exact order_int_eq_eq.2 (hS m n t hx hz hy hxy (order_eq_comm.1 hyz))
  · rw [order_eq_floatOrder fun m n hmn => hints ⟨m, n, hmn⟩]
    exact floatOrder_eq_iff.2 ⟨hle, hge⟩

theorem order_lt_of_lt_of_eq (hxy : order x y = some .lt) (hyz : order y z = some .eq) : order x z = some .lt := by
  have hle := toFloat_le_of_order hxy (by decide)
  have hle' := toFloat_le_of_order hyz (by decide)
  by_cases hints : ∃ m n, x = .int m ∧ y = .int n
  · obtain ⟨m, n, rfl, rfl⟩ := hints
    cases z with
    | int k =>
      rw [order_int_eq_eq] at hyz
      exact hyz ▸ hxy
    | float t =>
      rw [order_int_float]
      rcases order_of_float_le (float_le_trans hle hle') with hlt | heq
      · exact hlt
      · -- both integers are rounded to the float, so they are the same
        have hmn := hS m n t hx hy hz ((order_int_float m t).trans heq) hyz
        rw [hmn, order_int_eq_lt] at hxy
        exact absurd hxy (lt_irrefl _)
  · have hlt := toFloat_lt_of_order (fun m n hmn => hints ⟨m, n, hmn⟩) hxy
    exact order_of_toFloat_lt (float_lt_of_lt_of_le hlt hle')

theorem order_lt_of_eq_of_lt (hxy : order x y = some .eq) (hyz : order y z = some .lt) : order x z = some .lt := by
  have hle := toFloat_le_of_order hxy (by decide)
  have hle' := toFloat_le_of_order hyz (by decide)
  by_cases hints : ∃ m n, y = .int m ∧ z = .int n
  · obtain ⟨m, n, rfl, rfl⟩ := hints
    cases x with
    | int k =>
      rw [order_int_eq_eq] at hxy
      exact hxy ▸ hyz
    | float t =>
      rw [order_float_int]
      rcases order_of_float_le (float_le_trans hle hle') with hlt | heq
      · exact hlt
      · have hmn := hS m n t hy hz hx (order_eq_comm.1 hxy) (order_eq_comm.1 ((order_float_int t n).trans heq))
        rw [hmn, order_int_eq_lt] at hyz
        exact absurd hyz (lt_irrefl _)
  · have hlt := toFloat_lt_of_order (fun m n hmn => hints ⟨m, n, hmn⟩) hyz
    exact order_of_toFloat_lt (float_lt_of_le_of_lt hle hlt)

/-- Equal and less compose in every order. -/
theorem order_trans (hxy : order x y = some o₁) (hyz : order y z = some o₂) (h₁ : o₁ ≠ .gt) (h₂ : o₂ ≠ .gt) :
    order x z = some (o₁.then o₂) := by
  cases o₁ with
  | gt => exact absurd rfl h₁
  | lt =>
    cases o₂ with
    | gt => exact absurd rfl h₂
    | lt => exact order_lt_trans hxy hyz
    | eq => exact order_lt_of_lt_of_eq hS hx hy hz hxy hyz
  | eq =>
    cases o₂ with
    | gt => exact absurd rfl h₂
    | lt => exact order_lt_of_eq_of_lt hS hx hy hz hxy hyz
    | eq => exact order_eq_trans hS hx hy hz hxy hyz

end
end Number
end Millrace
