import Millrace.Proofs.Number.Arithmetic

/-!
# Naturals as floats

A natural number as a float, whatever its size: the conversion is monotone (`naturalValue_le`) and doubling a number
doubles its float (`naturalValue_two_mul`).  Both hang on how ties are broken; beyond the greatest float the result is
infinite (`unpack_ofNat_of_gt`).
-/

namespace Millrace

open Float.Model (Format UnpackedFloat)
open Float.Model.UnpackedFloat

/-! ### Shifts of mantissas -/

/-- The mantissa with its two bits, as a number. -/
private def code (em : ExtendedMantissa) : Nat := 4 * em.mantissa + 2 * em.roundBit.toNat + em.stickyBit.toNat

private theorem code_shiftRightOne (em : ExtendedMantissa) :
    code em.shiftRightOne = 2 * em.mantissa + (em.roundBit || em.stickyBit).toNat := by
  have hbit : (em.mantissa % 2 != 0).toNat = em.mantissa % 2 := by
    rcases Nat.mod_two_eq_zero_or_one em.mantissa with hm | hm <;> rw [hm] <;> rfl
  simp only [code, ExtendedMantissa.shiftRightOne, hbit]
  omega

private theorem code_shiftRightOne_le {em em' : ExtendedMantissa} (h : code em ≤ code em') :
    code em.shiftRightOne ≤ code em'.shiftRightOne := by
  rw [code_shiftRightOne, code_shiftRightOne]
  obtain ⟨m, r, s⟩ := em
  obtain ⟨m', r', s'⟩ := em'
  cases r <;> cases s <;> cases r' <;> cases s' <;> simp [code] at h ⊢ <;> omega

private theorem code_shiftRight_le {em em' : ExtendedMantissa} (h : code em ≤ code em') (k : Nat) :
    code (em >>> k) ≤ code (em' >>> k) := by
  induction k with
  | zero => exact h
  | succ k ih => exact code_shiftRightOne_le ih

private theorem roundedMantissa_le {em em' : ExtendedMantissa} (h : code em ≤ code em') :
    em.roundedMantissa ≤ em'.roundedMantissa := by
  obtain ⟨m, r, s⟩ := em
  obtain ⟨m', r', s'⟩ := em'
  cases r <;> cases s <;> cases r' <;> cases s' <;>
    simp [code, ExtendedMantissa.roundedMantissa, ExtendedMantissa.accuracy, Accuracy.roundToNearestEven] at h ⊢ <;>
    omega

/-- Rounding keeps the order of exact mantissas that are shifted equally far. -/
private theorem roundedMantissa_shiftRight_le {m m' : Nat} (h : m ≤ m') (k : Nat) :
    (ExtendedMantissa.ofMantissaAndAccuracy m .exact >>> k).roundedMantissa ≤
      (ExtendedMantissa.ofMantissaAndAccuracy m' .exact >>> k).roundedMantissa := by
  refine roundedMantissa_le (code_shiftRight_le ?_ k)
  change 4 * m + 0 + 0 ≤ 4 * m' + 0 + 0
  omega

theorem shiftRight_two_mul (m k : Nat) :
    ExtendedMantissa.ofMantissaAndAccuracy (2 * m) .exact >>> (k + 1) =
      ExtendedMantissa.ofMantissaAndAccuracy m .exact >>> k := by
  induction k with
  | zero =>
    change (⟨2 * m / 2, 2 * m % 2 != 0, false || false⟩ : ExtendedMantissa) = ⟨m, false, false⟩
    rw [Nat.mul_div_cancel_left m (by decide), Nat.mul_mod_right]
    rfl
  | succ k ih => exact congrArg ExtendedMantissa.shiftRightOne ih

/-! ### Values -/

/-- The number of the float next to a natural, where the exponent may be too large for a float. -/
def naturalValue (n : Nat) : ℚ :=
  dyadic (roundedShift (n * 2 ^ 53) (-53) .exact) (-53 + firstShift (n * 2 ^ 53) (-53))

section
variable {m n : Nat}

theorem firstShift_natural (hn : n ≠ 0) : firstShift (n * 2 ^ 53) (-53) = n.log2 + 1 := by
  rw [firstShift, log2_mul_two_pow hn]
  omega

theorem rounded_naturalValue (hn : n ≠ 0) : Rounded (n : ℚ) (naturalValue n) := by
  have hbits : 52 ≤ (n * 2 ^ 53).log2 ∨ (-53 : Int) ≤ -1074 := by
    rw [log2_mul_two_pow hn]
    omega
  have hvalue : (n : ℚ) = dyadic (n * 2 ^ 53) (-53) := by
    rw [dyadic_mul_two_pow, ← dyadic_zero n]
    rfl
  rw [hvalue]
  exact ((holds_exact _ _).shiftRight _).rounded (canonical_firstShift hbits _)

/-- The conversion of naturals is monotone. -/
theorem naturalValue_le (hm : m ≠ 0) (h : m ≤ n) : naturalValue m ≤ naturalValue n := by
  have hn : n ≠ 0 := by omega
  rcases Nat.lt_or_ge m.log2 n.log2 with hless | hge
  · -- a power of two lies between the naturals, and it is a float
    have hpow (k : Nat) : ((2 ^ k : Nat) : ℚ) = dyadic 1 k := by
      rw [← dyadic_zero, ← Nat.one_mul (2 ^ k), dyadic_mul_two_pow, zero_add]
    have hbelow : (m : ℚ) ≤ dyadic 1 n.log2 := by
      rw [← hpow, Nat.cast_le]
      exact (Nat.lt_log2_self.trans_le (Nat.pow_le_pow_right (by decide) hless)).le
    have habove : dyadic 1 n.log2 ≤ (n : ℚ) := by
      rw [← hpow, Nat.cast_le]
      exact Nat.log2_self_le hn
    have hm' := (rounded_naturalValue hm 1 n.log2 (by decide) (by omega)).2 hbelow
    have hn' := (rounded_naturalValue hn 1 n.log2 (by decide) (by omega)).1 habove
    exact hm'.trans hn'
  · have hlog : m.log2 = n.log2 := by
      refine le_antisymm ?_ hge
      rw [Nat.log2_eq_log_two, Nat.log2_eq_log_two]
      exact Nat.log_mono_right h
    rw [naturalValue, naturalValue, roundedShift, roundedShift, firstShift_natural hm, firstShift_natural hn, hlog,
      dyadic_le_iff]
    exact roundedMantissa_shiftRight_le (Nat.mul_le_mul_right _ h) _

/-- Twice a natural is converted to twice its float. -/
theorem naturalValue_two_mul (hn : n ≠ 0) : naturalValue (2 * n) = 2 * naturalValue n := by
  have hdouble : 2 * n ≠ 0 := by omega
  have hshift : firstShift (2 * n * 2 ^ 53) (-53) = firstShift (n * 2 ^ 53) (-53) + 1 := by
    rw [firstShift_natural hn, firstShift_natural hdouble, Nat.log2_two_mul hn]
  have htwo (k : Nat) (e : Int) : dyadic k (e + 1) = 2 * dyadic k e := by
    unfold dyadic
    rw [zpow_add₀ (by norm_num), zpow_one]
    ring
  rw [naturalValue, naturalValue, roundedShift, roundedShift, hshift, Nat.mul_assoc, shiftRight_two_mul,
    Nat.cast_succ, ← add_assoc, htwo]

/-! ### Conversions -/

theorem unpack_pack_infinity {e : Int} (hm : 0 < m) (he : 971 < e) :
    (Float.Model.pack (.finite .positive m e hm)).unpack = .infinity .positive := by
  have hlarge : 2 ^ 11 ≤ (e + 1023 + 52).toNat + 1 := by omega
  have hpack : UnpackedFloat.pack Format.binary64 (.finite .positive m e hm) =
      UnpackedFloat.pack Format.binary64 (.infinity .positive) := if_pos hlarge
  change unpack Format.binary64 (UnpackedFloat.pack Format.binary64 (.finite .positive m e hm)) = _
  rw [hpack]
  rfl

theorem naturalValue_of_lt (hn : n ≠ 0) (hsmall : n < 2 ^ 53) : naturalValue n = n := by
  have hrounded := rounded_naturalValue hn
  rw [← dyadic_zero n] at hrounded ⊢
  exact hrounded.eq_dyadic hsmall (by decide)

theorem one_le_naturalValue (hn : n ≠ 0) : 1 ≤ naturalValue n := by
  have hone := (rounded_naturalValue hn 1 0 (by decide) (by decide)).1
  rw [dyadic_zero, Nat.cast_one] at hone
  exact hone (by exact_mod_cast Nat.one_le_iff_ne_zero.2 hn)

theorem ofNat_eq (hn : 2 ^ 53 ≤ n) :
    ∃ m f, ∃ hm : 0 < m, Canonical m f ∧ dyadic m f = naturalValue n ∧
      Float.ofNat n = .ofModel (.pack (.finite .positive m f hm)) := by
  have hne : n ≠ 0 := by omega
  have hof : Float.ofNat n =
      .ofModel (.pack (roundWithAccuracy Format.binary64 .positive (n * 2 ^ 53) (-53) .exact)) := by
    have hlow : ¬ (0 : Int) < -(2 ^ Format.binary64.exponentBits + n.log2) := not_lt.2 (by simp)
    change Float.ofScientific n false 0 = _
    rw [Float.ofScientific, dif_neg (by omega)]
    change Float.ofModel (.pack (UnpackedFloat.ofScientific Format.binary64 n 0)) = _
    rw [UnpackedFloat.ofScientific, dif_neg hne, if_neg (by decide), if_neg hlow, if_pos le_rfl]
    simp only [UnpackedFloat.mul, Nat.shiftLeft_eq, Int.toNat_zero, Nat.pow_zero, Nat.mul_one, add_zero]
    rfl
  have hbits : 52 ≤ (n * 2 ^ 53).log2 ∨ (-53 : Int) ≤ -1074 := by
    rw [log2_mul_two_pow hne]
    omega
  obtain ⟨m, f, hc, hvalue, hround⟩ := roundWithAccuracy_eq .positive hbits .exact
  have hm : 0 < m := by
    by_contra hzero
    obtain rfl : m = 0 := by omega
    have hone := one_le_naturalValue hne
    rw [naturalValue, ← hvalue, dyadic] at hone
    norm_num at hone
  rw [dif_neg hm.ne'] at hround
  exact ⟨m, f, hm, hc, hvalue, by rw [hof, hround]⟩

/-- A natural that is not too large is converted to the float next to it. -/
theorem denotes_ofNat_of_le (hn : n ≠ 0) (h : naturalValue n ≤ dyadic (2 ^ 53 - 1) 971) :
    Denotes (Float.ofNat n) (naturalValue n) := by
  rcases Nat.lt_or_ge n (2 ^ 53) with hsmall | hlarge
  · rw [naturalValue_of_lt hn hsmall]
    exact denotes_ofNat (Nat.pos_of_ne_zero hn) hsmall
  · obtain ⟨m, f, hm, hc, hvalue, hof⟩ := ofNat_eq hlarge
    have hexp : f ≤ 971 := by
      by_contra hgt
      have hnormal : 2 ^ 52 ≤ m := hc.normal.resolve_right (by omega)
      have hlt : dyadic (2 ^ 53 - 1) 971 < dyadic m f := dyadic_lt_of_exponent_lt (by decide) hnormal (by omega)
      exact absurd (hvalue.trans_le h) (not_le.2 hlt)
    refine ⟨m, f, hm, ?_, hc, hvalue.symm⟩
    rw [hof]
    exact unpack_pack hm hc hexp

/-- A natural that is too large is converted to infinity. -/
theorem unpack_ofNat_of_gt (hn : n ≠ 0) (h : dyadic (2 ^ 53 - 1) 971 < naturalValue n) :
    (Float.ofNat n).toModel.unpack = .infinity .positive := by
  rcases Nat.lt_or_ge n (2 ^ 53) with hsmall | hlarge
  · obtain ⟨-, hrange⟩ := inRange_natCast (Nat.pos_of_ne_zero hn) hsmall
    rw [naturalValue_of_lt hn hsmall] at h
    exact absurd hrange (not_le.2 h)
  · obtain ⟨m, f, hm, hc, hvalue, hof⟩ := ofNat_eq hlarge
    have hexp : 971 < f := by
      by_contra hle
      have hmantissa : dyadic m f ≤ dyadic (2 ^ 53 - 1) f := dyadic_le_iff.2 (Nat.le_pred_of_lt hc.mantissa_lt)
      have hexponent := dyadic_le_of_exponent_le (2 ^ 53 - 1) (not_lt.1 hle)
      exact absurd ((hvalue ▸ hmantissa).trans hexponent) (not_le.2 h)
    rw [hof]
    exact unpack_pack_infinity hm hexp

end
end Millrace
