import Mathlib.Data.Prod.Lex
import Millrace.Number.Real

/-!
# The order of numbers

Two numbers compare the same from both sides (`Number.order_swap`).  A float is below, equal to or above another one,
or the two do not compare, and the three questions that `Number.order` asks of floats exclude each other
(`Number.order_float`).  The floats that are not nan are ordered linearly, by their ranks (`unpacked_le_iff`).
-/

namespace Millrace

open Float.Model (UnpackedFloat)

private theorem swap_then_compare (m n : Int) (i j : Nat) :
    ((compare m n).then (compare i j)).swap = (compare n m).then (compare j i) := by
  rw [Ordering.swap_then, Int.compare_swap, Nat.compare_swap]

/-- Two unpacked floats compare the same from both sides. -/
theorem compare_unpacked_swap (a b : UnpackedFloat) : b.compare a = (a.compare b).map Ordering.swap := by
  cases a with
  | notANumber => cases b <;> rfl
  | infinity s =>
    cases s <;> cases b with
    | infinity t => cases t <;> rfl
    | notANumber => rfl
    | zero t => rfl
    | finite t m e h => rfl
  | zero s =>
    cases b with
    | infinity t => cases t <;> rfl
    | notANumber => rfl
    | zero t => rfl
    | finite t m e h => cases t <;> rfl
  | finite s m e h =>
    cases b with
    | infinity t => cases t <;> cases s <;> rfl
    | notANumber => cases s <;> rfl
    | zero t => cases s <;> rfl
    | finite t n k h' =>
      cases s <;> cases t
      · exact congrArg (fun o => some o.swap) (swap_then_compare _ _ _ _).symm
      · rfl
      · rfl
      · exact congrArg some (swap_then_compare _ _ _ _).symm

/-- How two floats compare, if they do. -/
def floatOrder (x y : Float) : Option Ordering := x.toModel.compare y.toModel

theorem floatOrder_swap (x y : Float) : floatOrder y x = (floatOrder x y).map Ordering.swap :=
  compare_unpacked_swap _ _

theorem float_lt_iff {x y : Float} : x < y ↔ floatOrder x y = some .lt := by
  change decide (x.toModel < y.toModel) = true ↔ _
  rw [decide_eq_true_iff]
  change x.toModel.lt y.toModel = true ↔ _
  simp [floatOrder, Float.Model.lt, UnpackedFloat.lt, Float.Model.compare]

theorem float_beq_iff {x y : Float} : (x == y) = true ↔ floatOrder x y = some .eq := by
  change (floatOrder x y == some .eq) = true ↔ _
  exact beq_iff_eq

theorem float_gt_iff {x y : Float} : y < x ↔ floatOrder x y = some .gt := by
  rw [float_lt_iff, floatOrder_swap x y]
  cases floatOrder x y with
  | none => simp
  | some o => cases o <;> simp

/-! ### Ranks -/

/-- Where a float stands among the floats that are not nan. -/
def rank : UnpackedFloat → Option (ℤ ×ₗ ℤ ×ₗ ℤ)
  | .notANumber => none
  | .infinity .negative => some (toLex (-2, toLex (0, 0)))
  | .finite .negative m e _ => some (toLex (-1, toLex (-e, -m)))
  | .zero _ => some (toLex (0, toLex (0, 0)))
  | .finite .positive m e _ => some (toLex (1, toLex (e, m)))
  | .infinity .positive => some (toLex (2, toLex (0, 0)))

private theorem isLE_then_iff (m n : Int) (i j : Nat) :
    ((compare m n).then (compare i j)).isLE = true ↔ m < n ∨ m = n ∧ i ≤ j := by
  rcases lt_trichotomy m n with h | rfl | h
  · simp [compare_lt_iff_lt.2 h, h]
  · simp [Nat.isLE_compare]
  · simp [compare_gt_iff_gt.2 h, h.not_gt, h.ne']

private theorem isGE_then_iff (m n : Int) (i j : Nat) :
    ((compare m n).then (compare i j)).isGE = true ↔ n < m ∨ m = n ∧ j ≤ i := by
  rcases lt_trichotomy m n with h | rfl | h
  · simp [compare_lt_iff_lt.2 h, h.not_gt, h.ne]
  · simp [Nat.isGE_compare]
  · simp [compare_gt_iff_gt.2 h, h]

/-- Unpacked floats are ordered by their ranks. -/
theorem unpacked_le_iff (a b : UnpackedFloat) : a.le b = true ↔ ∃ x ∈ rank a, ∃ y ∈ rank b, x ≤ y := by
  rcases a with ⟨_ | _⟩ | _ | _ | ⟨_ | _, i, m, hi⟩ <;> rcases b with ⟨_ | _⟩ | _ | _ | ⟨_ | _, j, n, hj⟩ <;>
    dsimp only [UnpackedFloat.le, UnpackedFloat.compare, rank] <;>
    simp [Prod.Lex.toLex_le_toLex, isLE_then_iff, isGE_then_iff] <;>
    rfl

theorem float_le_iff {x y : Float} : x ≤ y ↔ x.toModel.unpack.le y.toModel.unpack = true := by
  change decide (x.toModel.unpack.le y.toModel.unpack = true) = true ↔ _
  rw [decide_eq_true_iff]

theorem float_le_trans {x y z : Float} (hxy : x ≤ y) (hyz : y ≤ z) : x ≤ z := by
  rw [float_le_iff, unpacked_le_iff] at hxy hyz ⊢
  obtain ⟨a, ha, b, hb, hab⟩ := hxy
  obtain ⟨b', hb', c, hc, hbc⟩ := hyz
  obtain rfl : b = b' := Option.mem_unique hb hb'
  exact ⟨a, ha, c, hc, hab.trans hbc⟩

theorem not_float_lt_of_le {x y : Float} (h : x ≤ y) : ¬ y < x := by
  intro hlt
  rw [float_gt_iff] at hlt
  rw [float_le_iff, UnpackedFloat.le, show x.toModel.unpack.compare y.toModel.unpack = some .gt from hlt] at h
  cases h

/-- The three questions whether a float is below, equal to or above another one find out how the two compare. -/
theorem floatOrder_eq_ite (x y : Float) :
    floatOrder x y =
      if x < y then some .lt else if x == y then some .eq else if y < x then some .gt else none := by
  simp only [float_gt_iff (x := x), float_lt_iff (x := x), float_beq_iff]
  cases floatOrder x y with
  | none => simp
  | some o => cases o <;> simp

namespace Number

/-- Floats compare by their order as numbers. -/
theorem order_float (x y : Double) : order (.float x) (.float y) = floatOrder x.toFloat y.toFloat :=
  (floatOrder_eq_ite _ _).symm

theorem order_float_eq_lt {x y : Double} : order (.float x) (.float y) = some .lt ↔ x < y := by
  rw [order_float]
  exact float_lt_iff.symm

/-- Two numbers that are not both integers compare as floats. -/
theorem order_eq_floatOrder {a b : Number} (h : ∀ m n, ¬ (a = .int m ∧ b = .int n)) :
    order a b = floatOrder a.toFloat b.toFloat := by
  cases a with
  | float x => cases b <;> exact (floatOrder_eq_ite _ _).symm
  | int m =>
    cases b with
    | float y => exact (floatOrder_eq_ite _ _).symm
    | int n => exact absurd ⟨rfl, rfl⟩ (h m n)

theorem order_swap (a b : Number) : order b a = (order a b).map Ordering.swap := by
  by_cases h : ∃ m n, a = .int m ∧ b = .int n
  · obtain ⟨m, n, rfl, rfl⟩ := h
    simp only [order, Option.map_some, Int.compare_swap]
  · have h' : ∀ m n, ¬ (a = .int m ∧ b = .int n) := fun m n hab => h ⟨m, n, hab⟩
    rw [order_eq_floatOrder h', order_eq_floatOrder fun m n hba => h' n m ⟨hba.2, hba.1⟩]
    exact floatOrder_swap _ _

end Number
end Millrace
