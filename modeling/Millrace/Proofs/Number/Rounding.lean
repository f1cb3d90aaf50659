import Mathlib

/-!
# Rounding to floats

A number is rounded in two shifts: the first one leaves a mantissa of 53 bits, and the bits that fall out say where the
number lies above it (`Holds`); the second one is for a mantissa that rounding up carried to the next power of two.
What is rounded stays on its side of every float (`Rounded`), whatever the rule for ties is.

## Main statements

* `Holds.shiftRight`: a shift forgets nothing that matters.
* `Holds.rounded`: rounding to a mantissa of 53 bits.
* `roundWithAccuracy_spec`: the two shifts together.
-/

namespace Millrace

open Float.Model (Format totalExponent)
open Float.Model.UnpackedFloat

/-! ### Mantissas and exponents -/

/-- The number `m * 2 ^ e`. -/
def dyadic (m : Nat) (e : Int) : ℚ := m * 2 ^ e

section
variable {m n : Nat} {e f : Int} {v w : ℚ}

theorem dyadic_pos (hm : 0 < m) (e : Int) : 0 < dyadic m e := by
  unfold dyadic
  positivity

theorem dyadic_le_iff : dyadic m e ≤ dyadic n e ↔ m ≤ n := by
  unfold dyadic
  rw [mul_le_mul_iff_of_pos_right (by positivity), Nat.cast_le]

theorem dyadic_lt_iff : dyadic m e < dyadic n e ↔ m < n := by
  unfold dyadic
  rw [mul_lt_mul_iff_of_pos_right (by positivity), Nat.cast_lt]

theorem dyadic_inj : dyadic m e = dyadic n e ↔ m = n := by
  rw [le_antisymm_iff, dyadic_le_iff, dyadic_le_iff, Nat.le_antisymm_iff]

/-- Factors of two go from the mantissa to the exponent. -/
theorem dyadic_mul_two_pow (m k : Nat) (e : Int) : dyadic (m * 2 ^ k) e = dyadic m (e + k) := by
  unfold dyadic
  rw [zpow_add₀ (by norm_num), zpow_natCast, Nat.cast_mul, Nat.cast_pow, Nat.cast_ofNat]
  ring

theorem dyadic_le_of_exponent_le (m : Nat) (h : e ≤ f) : dyadic m e ≤ dyadic m f := by
  unfold dyadic
  gcongr
  norm_num

/-- A mantissa of at most 53 bits is less than one of at least 53 bits and a larger exponent. -/
theorem dyadic_lt_of_exponent_lt (hm : m < 2 ^ 53) (hn : 2 ^ 52 ≤ n) (h : e < f) : dyadic m e < dyadic n f :=
  calc
    dyadic m e < dyadic (2 ^ 52 * 2 ^ 1) e := dyadic_lt_iff.2 (by omega)
    _ = dyadic (2 ^ 52) (e + 1) := dyadic_mul_two_pow _ 1 e
    _ ≤ dyadic (2 ^ 52) f := dyadic_le_of_exponent_le _ (by omega)
    _ ≤ dyadic n f := dyadic_le_iff.2 hn

/-- A mantissa and an exponent as a float has them, where the exponent may be too large. -/
structure Canonical (m : Nat) (e : Int) : Prop where
  mantissa_lt : m < 2 ^ 53
  le_exponent : -1074 ≤ e
  normal : 2 ^ 52 ≤ m ∨ e = -1074

/-- Every float that is not above the first number is not above the second one, and likewise below. -/
def Rounded (v w : ℚ) : Prop :=
  ∀ m e, m < 2 ^ 53 → -1074 ≤ e → (dyadic m e ≤ v → dyadic m e ≤ w) ∧ (v ≤ dyadic m e → w ≤ dyadic m e)

/-- A float is not changed by rounding. -/
theorem Rounded.eq_dyadic (h : Rounded (dyadic m e) w) (hm : m < 2 ^ 53) (he : -1074 ≤ e) : w = dyadic m e :=
  le_antisymm ((h m e hm he).2 le_rfl) ((h m e hm he).1 le_rfl)

/-! ### Extended mantissas -/

/-- The number lies between the mantissa and the next one, and the two bits say whether it is the mantissa. -/
structure Holds (em : ExtendedMantissa) (e : Int) (v : ℚ) : Prop where
  le : dyadic em.mantissa e ≤ v
  lt : v < dyadic (em.mantissa + 1) e
  exact_iff : v = dyadic em.mantissa e ↔ em.roundBit = false ∧ em.stickyBit = false

variable {em : ExtendedMantissa} {a : Accuracy}

theorem Holds.shiftRightOne (h : Holds em e v) : Holds em.shiftRightOne (e + 1) v := by
  have hhalf (k : Nat) : dyadic k (e + 1) = dyadic (k * 2) e := (dyadic_mul_two_pow k 1 e).symm
  have hle : em.mantissa / 2 * 2 ≤ em.mantissa := Nat.div_mul_le_self _ _
  refine ⟨?_, ?_, ?_⟩
  · change dyadic (em.mantissa / 2) (e + 1) ≤ v
    rw [hhalf]
    exact (dyadic_le_iff.2 hle).trans h.le
  · change v < dyadic (em.mantissa / 2 + 1) (e + 1)
    rw [hhalf]
    exact h.lt.trans_le (dyadic_le_iff.2 (by omega))
  · change v = dyadic (em.mantissa / 2) (e + 1) ↔
      (em.mantissa % 2 != 0) = false ∧ (em.roundBit || em.stickyBit) = false
    rw [hhalf, Bool.or_eq_false_iff, ← h.exact_iff, bne_eq_false_iff_eq]
    constructor
    · intro hv
      -- nothing falls out, since the number is not above the shifted mantissa
      have hsame : em.mantissa ≤ em.mantissa / 2 * 2 := dyadic_le_iff.1 (h.le.trans hv.le)
      refine ⟨by omega, ?_⟩
      rw [hv, Nat.le_antisymm hle hsame]
    · rintro ⟨heven, hv⟩
      rw [hv, dyadic_inj]
      omega

/-- Shifting an extended mantissa keeps what it says about a number. -/
theorem Holds.shiftRight (h : Holds em e v) (k : Nat) : Holds (em >>> k) (e + k) v := by
  induction k with
  | zero =>
    rw [Nat.cast_zero, add_zero]
    exact h
  | succ k ih =>
    rw [Nat.cast_succ, ← add_assoc]
    exact ih.shiftRightOne

theorem shiftRight_mantissa (em : ExtendedMantissa) (k : Nat) : (em >>> k).mantissa = em.mantissa / 2 ^ k := by
  induction k with
  | zero => exact (Nat.div_one _).symm
  | succ k ih =>
    change (em >>> k).mantissa / 2 = _
    rw [ih, Nat.div_div_eq_div_mul, Nat.pow_succ]

theorem ofMantissaAndAccuracy_mantissa (m : Nat) (a : Accuracy) :
    (ExtendedMantissa.ofMantissaAndAccuracy m a).mantissa = m := by
  cases a with
  | exact => rfl
  | inexact o => cases o <;> rfl

theorem holds_exact (m : Nat) (e : Int) : Holds (.ofMantissaAndAccuracy m .exact) e (dyadic m e) :=
  ⟨le_rfl, dyadic_lt_iff.2 (Nat.lt_succ_self m), ⟨fun _ => ⟨rfl, rfl⟩, fun _ => rfl⟩⟩

theorem holds_inexact (o : Ordering) (hle : dyadic m e < v) (hlt : v < dyadic (m + 1) e) :
    Holds (.ofMantissaAndAccuracy m (.inexact o)) e v := by
  have hne : v ≠ dyadic m e := hle.ne'
  cases o <;>
    exact ⟨hle.le, hlt, ⟨fun hv => absurd hv hne, fun hbits => by cases hbits.1 <;> cases hbits.2⟩⟩

/-! ### The two shifts -/

theorem targetExponent_eq (m : Nat) (e : Int) :
    Format.binary64.targetExponent (totalExponent m e) = max (m.log2 + e - 52) (-1074) := by
  simp only [Format.targetExponent, totalExponent, Format.mantissaBits, Format.minExponent]
  norm_num
  congr 1
  ring

/-- The mantissa of enough bits that the first shift leaves. -/
theorem canonical_shift (hm : 52 ≤ m.log2 ∨ e ≤ -1074) :
    Canonical (m / 2 ^ (max (m.log2 + e - 52) (-1074) - e).toNat)
      (e + (max (m.log2 + e - 52) (-1074) - e).toNat) := by
  generalize hk : (max (m.log2 + e - 52) (-1074) - e).toNat = k
  refine ⟨?_, by omega, ?_⟩
  · rw [Nat.div_lt_iff_lt_mul (by positivity), ← Nat.pow_add]
    calc
      m < 2 ^ (m.log2 + 1) := Nat.lt_log2_self
      _ ≤ 2 ^ (53 + k) := Nat.pow_le_pow_right (by decide) (by omega)
  · by_cases hnormal : -1074 ≤ m.log2 + e - 52 ∧ m ≠ 0
    · left
      have hlog : 52 + k = m.log2 := by omega
      rw [Nat.le_div_iff_mul_le (by positivity), ← Nat.pow_add, hlog]
      exact Nat.log2_self_le hnormal.2
    · right
      by_cases hzero : m = 0
      · subst hzero
        rw [Nat.log2_zero] at hm hk
        omega
      · omega

theorem shift_of_lt (hm : m < 2 ^ 53) (he : -1074 ≤ e) :
    shiftToTargetExponent Format.binary64 m e .exact = (⟨m, false, false⟩, e) := by
  have hlog : m.log2 ≤ 52 := by
    by_cases hzero : m = 0
    · rw [hzero]
      decide
    · have := (Nat.log2_lt hzero).2 hm
      omega
  have hshift : (max (m.log2 + e - 52) (-1074) - e).toNat = 0 := by omega
  rw [shiftToTargetExponent, targetExponent_eq, shiftToExponent, hshift, Nat.cast_zero, add_zero]
  rfl

theorem shift_of_carry (he : -1074 ≤ e) :
    shiftToTargetExponent Format.binary64 (2 ^ 53) e .exact = (⟨2 ^ 52, false, false⟩, e + 1) := by
  have hshift : (max (((2 ^ 53 : Nat).log2 : Int) + e - 52) (-1074) - e).toNat = 1 := by
    rw [Nat.log2_two_pow]
    omega
  rw [shiftToTargetExponent, targetExponent_eq, shiftToExponent, hshift]
  rfl

/-! ### Rounding -/

/-- The mantissa is rounded to itself, or to the next one if the number is not exact. -/
theorem roundedMantissa_cases (em : ExtendedMantissa) :
    em.roundedMantissa = em.mantissa ∨ em.roundedMantissa = em.mantissa + 1 ∧ em.roundBit = true := by
  obtain ⟨m, roundBit, stickyBit⟩ := em
  cases roundBit <;> cases stickyBit
  · exact Or.inl rfl
  · exact Or.inl rfl
  · change m + m % 2 = m ∨ m + m % 2 = m + 1 ∧ true = true
    rcases Nat.mod_two_eq_zero_or_one m with heven | hodd
    · exact Or.inl (by rw [heven, add_zero])
    · exact Or.inr ⟨by rw [hodd], rfl⟩
  · exact Or.inr ⟨rfl, rfl⟩

/-- The rounded mantissa is on the same side of every float as the number. -/
theorem Holds.rounded (h : Holds em e v) (hc : Canonical em.mantissa e) :
    Rounded v (dyadic em.roundedMantissa e) := by
  intro m f hm hf
  -- a float with a smaller exponent is not above the mantissa, one with a larger exponent is a multiple of its unit
  have hside : dyadic m f ≤ dyadic em.mantissa e ∨ dyadic (em.mantissa + 1) e ≤ dyadic m f := by
    rcases lt_or_ge f e with hlt | hge
    · left
      rcases hc.normal with hnormal | hmin
      · exact (dyadic_lt_of_exponent_lt hm hnormal hlt).le
      · omega
    · obtain ⟨k, rfl⟩ := Int.le.dest hge
      rw [← dyadic_mul_two_pow, dyadic_le_iff, dyadic_le_iff]
      omega
  rcases roundedMantissa_cases em with hround | ⟨hround, hbit⟩
  · rw [hround]
    refine ⟨fun hle => ?_, fun hge => h.le.trans hge⟩
    rcases hside with hbelow | habove
    · exact hbelow
    · exact absurd (habove.trans hle) (not_le.2 h.lt)
  · rw [hround]
    refine ⟨fun hle => hle.trans h.lt.le, fun hge => ?_⟩
    rcases hside with hbelow | habove
    · -- then the number is the mantissa, and would not be rounded up
      have hexact := h.exact_iff.1 (le_antisymm (hge.trans hbelow) h.le)
      rw [hbit] at hexact
      cases hexact.1
    · exact habove

/-- How far the first shift goes. -/
def firstShift (m : Nat) (e : Int) : Nat := (max (m.log2 + e - 52) (-1074) - e).toNat

/-- The mantissa that is left after rounding, where it may have carried. -/
def roundedShift (m : Nat) (e : Int) (a : Accuracy) : Nat :=
  (ExtendedMantissa.ofMantissaAndAccuracy m a >>> firstShift m e).roundedMantissa

theorem canonical_firstShift (hm : 52 ≤ m.log2 ∨ e ≤ -1074) (a : Accuracy) :
    Canonical (ExtendedMantissa.ofMantissaAndAccuracy m a >>> firstShift m e).mantissa (e + firstShift m e) := by
  rw [shiftRight_mantissa, ofMantissaAndAccuracy_mantissa]
  exact canonical_shift hm

/-- The two shifts together, if the mantissa has enough bits. -/
theorem roundWithAccuracy_eq (s : Sign) (hm : 52 ≤ m.log2 ∨ e ≤ -1074) (a : Accuracy) :
    ∃ n f, Canonical n f ∧ dyadic n f = dyadic (roundedShift m e a) (e + firstShift m e) ∧
      roundWithAccuracy Format.binary64 s m e a =
        if hn : n = 0 then .zero s else .finite s n f (Nat.pos_of_ne_zero hn) := by
  let k := firstShift m e
  let first : ExtendedMantissa := ExtendedMantissa.ofMantissaAndAccuracy m a >>> k
  have hfirst : shiftToTargetExponent Format.binary64 m e a = (first, e + k) := by
    rw [shiftToTargetExponent, targetExponent_eq]
    rfl
  have hc : Canonical first.mantissa (e + k) := canonical_firstShift hm a
  have hbounds : first.mantissa ≤ first.roundedMantissa ∧ first.roundedMantissa ≤ first.mantissa + 1 := by
    rcases roundedMantissa_cases first with hr | ⟨hr, -⟩ <;> omega
  have hlt := hc.mantissa_lt
  rcases Nat.lt_or_ge first.roundedMantissa (2 ^ 53) with hsmall | hcarry
  · refine ⟨first.roundedMantissa, e + k, ⟨hsmall, hc.le_exponent, ?_⟩, rfl, ?_⟩
    · exact hc.normal.imp (fun hnormal => hnormal.trans hbounds.1) id
    · simp only [roundWithAccuracy, hfirst, shift_of_lt hsmall hc.le_exponent]
  · have hround : roundedShift m e a = 2 ^ 52 * 2 ^ 1 := by
      change first.roundedMantissa = _
      omega
    have hle := hc.le_exponent
    refine ⟨2 ^ 52, e + k + 1, ⟨by decide, by omega, Or.inl le_rfl⟩, ?_, ?_⟩
    · rw [hround, dyadic_mul_two_pow]
      rfl
    · have hround' : first.roundedMantissa = 2 ^ 53 := hround
      simp only [roundWithAccuracy, hfirst, hround', shift_of_carry hle]

/-- A number is rounded to a float, if the mantissa has enough bits and the exponent is not too large. -/
theorem roundWithAccuracy_spec (s : Sign) (hm : 52 ≤ m.log2 ∨ e ≤ -1074)
    (h : Holds (.ofMantissaAndAccuracy m a) e v) :
    ∃ n f, Canonical n f ∧ Rounded v (dyadic n f) ∧ roundWithAccuracy Format.binary64 s m e a =
      if hn : n = 0 then .zero s else .finite s n f (Nat.pos_of_ne_zero hn) := by
  obtain ⟨n, f, hc, hvalue, hround⟩ := roundWithAccuracy_eq s hm a
  refine ⟨n, f, hc, ?_, hround⟩
  rw [hvalue]
  exact (h.shiftRight (firstShift m e)).rounded (canonical_firstShift hm a)

end
end Millrace
