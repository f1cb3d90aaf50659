import Millrace.Proofs.Number.Rounding

/-!
# Floats as numbers

What a positive finite float stands for (`Denotes`).  Naturals below `2 ^ 53` are converted exactly, a product or a
quotient of floats is the rounded product or quotient of their numbers, and floats are ordered like their numbers.

## Main statements

* `denotes_div`: quotients.
* `denotes_ofNat`: naturals.
* `Denotes.le_iff`: the order.
-/

namespace Millrace

open Float.Model (Format UnpackedFloat totalExponent)
open Float.Model.UnpackedFloat

/-- The float is positive and finite, and `q` is its number. -/
def Denotes (x : Float) (q : ℚ) : Prop :=
  ∃ m e hm, x.toModel.unpack = .finite .positive m e hm ∧ Canonical m e ∧ q = dyadic m e

/-- The number lies between the least and the greatest positive float. -/
def InRange (v : ℚ) : Prop := dyadic 1 (-1074) ≤ v ∧ v ≤ dyadic (2 ^ 53 - 1) 971

section
variable {x y : Float} {m n : Nat} {e f : Int} {a : Accuracy} {p q v : ℚ}

/-! ### Packing -/

theorem toNat_append_one (b : BitVec 52) : (1#1 ++ b).toNat = 2 ^ 52 + b.toNat := by
  rw [BitVec.toNat_append, ← Nat.shiftLeft_add_eq_or_of_lt b.isLt, Nat.shiftLeft_eq]
  rfl

theorem unpackSign_packComponents {spec : Format} (sign : Sign) (b : BitVec spec.exponentBits)
    (c : BitVec spec.mantissaBitsWithoutImplicit) :
    unpackSign (packComponents spec sign b c) = sign.toBitVec := by
  ext i hi
  obtain rfl : i = 0 := by omega
  simp [unpackSign, packComponents, BitVec.getLsbD_append, BitVec.getElem_append]

theorem unpack_pack_normal (hm : 0 < m) (hbits : 2 ^ 52 ≤ m) (hlt : m < 2 ^ 53) (hle : -1074 ≤ e)
    (he : e ≤ 971) :
    (Float.Model.pack (.finite .positive m e hm)).unpack = .finite .positive m e hm := by
  have hfits : ¬ 2 ^ 11 ≤ (e + 1023 + 52).toNat + 1 := by omega
  have hlog : m.log2 + 1 = 53 := by
    have hlow := (Nat.le_log2 hm.ne').2 hbits
    have hhigh := (Nat.log2_lt hm.ne').2 hlt
    omega
  have hpack : UnpackedFloat.pack Format.binary64 (.finite .positive m e hm) =
      packComponents Format.binary64 .positive (.ofNat 11 (e + 1023 + 52).toNat) (.ofNat 52 m) :=
    (if_neg hfits).trans (if_pos hlog)
  have hexp : (BitVec.ofNat 11 (e + 1023 + 52).toNat).toNat = (e + 1023 + 52).toNat := by
    rw [BitVec.toNat_ofNat, Nat.mod_eq_of_lt (by omega)]
  have hmax : BitVec.ofNat 11 (e + 1023 + 52).toNat ≠ -1#11 := by
    intro h
    rw [h] at hexp
    change 2047 = _ at hexp
    omega
  have hzero : BitVec.ofNat 11 (e + 1023 + 52).toNat ≠ 0#11 := by
    intro h
    rw [h] at hexp
    change 0 = _ at hexp
    omega
  have hmantissa : (1#1 ++ BitVec.ofNat 52 m).toNat = m := by
    rw [toNat_append_one, BitVec.toNat_ofNat]
    omega
  change unpack Format.binary64 (UnpackedFloat.pack Format.binary64 (.finite .positive m e hm)) = _
  rw [hpack, unpack]
  simp only [unpackMantissa_packComponents, unpackExponent_packComponents, unpackSign_packComponents, if_neg hmax,
    if_neg hzero, hexp, hmantissa]
  congr 1
  change ((e + 1023 + 52).toNat : Int) - (1023 + 52) = e
  omega

theorem unpack_pack_subnormal (hm : 0 < m) (hbits : m < 2 ^ 52) (he : e = -1074) :
    (Float.Model.pack (.finite .positive m e hm)).unpack = .finite .positive m e hm := by
  have hfits : ¬ 2 ^ 11 ≤ (e + 1023 + 52).toNat + 1 := by omega
  have hlog : m.log2 + 1 ≠ 53 := by
    have hhigh := (Nat.log2_lt hm.ne').2 hbits
    omega
  have hpack : UnpackedFloat.pack Format.binary64 (.finite .positive m e hm) =
      packComponents Format.binary64 .positive 0#11 (.ofNat 52 m) :=
    (if_neg hfits).trans (if_neg hlog)
  have hmantissa : (BitVec.ofNat 52 m).toNat = m := by
    rw [BitVec.toNat_ofNat, Nat.mod_eq_of_lt hbits]
  have hzero : BitVec.ofNat 52 m ≠ 0#52 := by
    intro h
    rw [h] at hmantissa
    exact hm.ne hmantissa
  have hmax : (0#11 : BitVec 11) ≠ -1#11 := by decide
  change unpack Format.binary64 (UnpackedFloat.pack Format.binary64 (.finite .positive m e hm)) = _
  rw [hpack, unpack]
  simp only [unpackMantissa_packComponents, unpackExponent_packComponents, unpackSign_packComponents, if_neg hmax,
    dif_neg hzero, hmantissa, if_true, he]
  rfl

/-- Nothing gets lost when a float is packed. -/
theorem unpack_pack (hm : 0 < m) (hc : Canonical m e) (he : e ≤ 971) :
    (Float.Model.pack (.finite .positive m e hm)).unpack = .finite .positive m e hm := by
  rcases Nat.lt_or_ge m (2 ^ 52) with hsmall | hbits
  · exact unpack_pack_subnormal hm hsmall (hc.normal.resolve_left (Nat.not_le_of_lt hsmall))
  · exact unpack_pack_normal hm hbits hc.mantissa_lt hc.le_exponent he

/-- A rounded number that is neither too small nor too large is denoted by the float. -/
theorem denotes_round (hm : 52 ≤ m.log2 ∨ e ≤ -1074) (h : Holds (.ofMantissaAndAccuracy m a) e v)
    (hv : InRange v) :
    ∃ w, Denotes (.ofModel (.pack (roundWithAccuracy Format.binary64 .positive m e a))) w ∧ Rounded v w := by
  obtain ⟨n, f, hc, hrounded, hround⟩ := roundWithAccuracy_spec .positive hm h
  obtain ⟨hleast, -⟩ := hrounded 1 (-1074) (by decide) le_rfl
  obtain ⟨-, hgreatest⟩ := hrounded (2 ^ 53 - 1) 971 (by decide) (by decide)
  have hpos : 0 < n := by
    by_contra hzero
    obtain rfl : n = 0 := by omega
    have hlow := dyadic_pos Nat.one_pos (-1074) |>.trans_le (hleast hv.1)
    rw [dyadic, Nat.cast_zero, zero_mul] at hlow
    exact absurd hlow (lt_irrefl 0)
  have hexp : f ≤ 971 := by
    by_contra hlarge
    have hnormal : 2 ^ 52 ≤ n := hc.normal.resolve_right (by omega)
    have hlt : dyadic (2 ^ 53 - 1) 971 < dyadic n f := dyadic_lt_of_exponent_lt (by decide) hnormal (by omega)
    exact absurd (hgreatest hv.2) (not_le.2 hlt)
  rw [dif_neg hpos.ne'] at hround
  refine ⟨dyadic n f, ⟨n, f, hpos, ?_, hc, rfl⟩, hrounded⟩
  rw [hround]
  exact unpack_pack hpos hc hexp

/-! ### Operations -/

theorem log2_mul_two_pow (hm : m ≠ 0) (k : Nat) : (m * 2 ^ k).log2 = m.log2 + k := by
  induction k with
  | zero => rw [Nat.pow_zero, Nat.mul_one, Nat.add_zero]
  | succ k ih =>
    have hne : m * 2 ^ k ≠ 0 := Nat.mul_ne_zero hm (Nat.two_pow_pos k).ne'
    rw [Nat.pow_succ, ← Nat.mul_assoc, Nat.mul_comm, Nat.log2_two_mul hne, ih, Nat.add_assoc]

/-- The product of two floats is the rounded product of their numbers. -/
theorem denotes_mul (hx : Denotes x p) (hy : Denotes y q) (hv : InRange (p * q)) :
    ∃ w, Denotes (x * y) w ∧ Rounded (p * q) w := by
  obtain ⟨m, e, hm, hxm, hcx, rfl⟩ := hx
  obtain ⟨n, f, hn, hyn, hcy, rfl⟩ := hy
  have hmul : x * y =
      .ofModel (.pack (roundWithAccuracy Format.binary64 .positive (m * n) (e + f) .exact)) := by
    change Float.ofModel (.pack (UnpackedFloat.mul Format.binary64 x.toModel.unpack y.toModel.unpack)) = _
    rw [hxm, hyn]
    rfl
  have hvalue : dyadic m e * dyadic n f = dyadic (m * n) (e + f) := by
    unfold dyadic
    rw [zpow_add₀ (by norm_num), Nat.cast_mul]
    ring
  have hbits : 52 ≤ (m * n).log2 ∨ e + f ≤ -1074 := by
    have hle {k : Nat} (hk : 2 ^ 52 ≤ k) (hdvd : k ≤ m * n) : 52 ≤ (m * n).log2 :=
      (Nat.le_log2 (Nat.mul_pos hm hn).ne').2 (hk.trans hdvd)
    rcases hcx.normal with hnormal | hexp
    · exact Or.inl (hle hnormal (Nat.le_mul_of_pos_right m hn))
    · rcases hcy.normal with hnormal | hexp'
      · exact Or.inl (hle hnormal (Nat.le_mul_of_pos_left n hm))
      · right
        omega
  rw [hvalue] at hv ⊢
  rw [hmul]
  exact denotes_round hbits (holds_exact _ _) hv

/-- The quotient of mantissas, with its remainder, holds the quotient of the numbers. -/
theorem holds_quotient (hn : 0 < n) :
    Holds (.ofMantissaAndAccuracy (m / n) (accuracyOfFraction (m % n) n)) e (dyadic m e / n) := by
  have hnpos : (0 : ℚ) < n := Nat.cast_pos.2 hn
  have hdiv (k : Nat) : dyadic k e = dyadic (k * n) e / n := by
    unfold dyadic
    rw [Nat.cast_mul]
    field_simp
  have hlt : m < (m / n + 1) * n := by
    rw [Nat.add_mul, Nat.one_mul, Nat.mul_comm]
    exact Nat.lt_mul_div_succ m hn
  unfold accuracyOfFraction
  split
  · next hzero =>
    have hexact : dyadic m e / n = dyadic (m / n) e := by
      rw [hdiv (m / n), Nat.div_mul_cancel (Nat.dvd_of_mod_eq_zero hzero)]
    rw [hexact]
    exact holds_exact _ _
  · next hrest =>
    apply holds_inexact
    · rw [hdiv (m / n), div_lt_div_iff_of_pos_right hnpos, dyadic_lt_iff]
      have hsum := Nat.div_add_mod' m n
      omega
    · rw [hdiv (m / n + 1), div_lt_div_iff_of_pos_right hnpos, dyadic_lt_iff]
      exact hlt

/-- The exponent of the quotient of two mantissas, which leaves bits enough to round. -/
def quotientExponent (m n : Nat) (e f : Int) : Int :=
  min (e - f) (max (m.log2 + e - (n.log2 + f) - 53) (-1074))

/-- How far a mantissa is shifted before it is divided. -/
def quotientShift (m n : Nat) (e f : Int) : Nat := (e - f - quotientExponent m n e f).toNat

theorem divCore_eq (m n : Nat) (e f : Int) :
    divCore Format.binary64 m e n f =
      (m * 2 ^ quotientShift m n e f / n, quotientExponent m n e f,
        accuracyOfFraction (m * 2 ^ quotientShift m n e f % n) n) := by
  have htarget : min (e - f) (Format.binary64.targetExponent (totalExponent m e - totalExponent n f)) =
      quotientExponent m n e f := by
    simp only [quotientExponent, Format.targetExponent, totalExponent, Format.mantissaBits, Format.minExponent]
    norm_num
    congr 2
    ring
  simp only [divCore, htarget, quotientShift, Nat.shiftLeft_eq]

theorem quotientExponent_add_shift (m n : Nat) (e f : Int) :
    quotientExponent m n e f + quotientShift m n e f + f = e := by
  unfold quotientShift quotientExponent
  omega

/-- The mantissa of a quotient has bits enough, or its exponent is as small as can be. -/
theorem quotient_bits (hm : 0 < m) (hn : 0 < n) :
    52 ≤ (m * 2 ^ quotientShift m n e f / n).log2 ∨ quotientExponent m n e f ≤ -1074 := by
  by_cases hmin : quotientExponent m n e f ≤ -1074
  · exact Or.inr hmin
  · left
    have hlog : n.log2 + 53 ≤ m.log2 + quotientShift m n e f := by
      unfold quotientShift quotientExponent at *
      omega
    generalize quotientShift m n e f = k at hlog ⊢
    have hlow : 2 ^ 52 ≤ m * 2 ^ k / n := by
      rw [Nat.le_div_iff_mul_le hn]
      calc
        2 ^ 52 * n ≤ 2 ^ 52 * 2 ^ (n.log2 + 1) := Nat.mul_le_mul_left _ Nat.lt_log2_self.le
        _ = 2 ^ (n.log2 + 53) := by rw [← Nat.pow_add]; congr 1; omega
        _ ≤ 2 ^ (m.log2 + k) := Nat.pow_le_pow_right (by decide) hlog
        _ = 2 ^ m.log2 * 2 ^ k := Nat.pow_add ..
        _ ≤ m * 2 ^ k := Nat.mul_le_mul_right _ (Nat.log2_self_le hm.ne')
    exact (Nat.le_log2 (by omega)).2 hlow

/-- The quotient of two floats is the rounded quotient of their numbers. -/
theorem denotes_div (hx : Denotes x p) (hy : Denotes y q) (hv : InRange (p / q)) :
    ∃ w, Denotes (x / y) w ∧ Rounded (p / q) w := by
  obtain ⟨m, e, hm, hxm, hcx, rfl⟩ := hx
  obtain ⟨n, f, hn, hyn, hcy, rfl⟩ := hy
  have hdiv : x / y = .ofModel (.pack (roundWithAccuracy Format.binary64 .positive
      (m * 2 ^ quotientShift m n e f / n) (quotientExponent m n e f)
      (accuracyOfFraction (m * 2 ^ quotientShift m n e f % n) n))) := by
    change Float.ofModel (.pack (UnpackedFloat.div Format.binary64 x.toModel.unpack y.toModel.unpack)) = _
    rw [hxm, hyn]
    simp only [UnpackedFloat.div, divCore_eq]
    rfl
  have hvalue : dyadic m e / dyadic n f =
      dyadic (m * 2 ^ quotientShift m n e f) (quotientExponent m n e f) / n := by
    rw [dyadic_mul_two_pow]
    nth_rewrite 1 [← quotientExponent_add_shift m n e f]
    unfold dyadic
    rw [zpow_add₀ (by norm_num : (2 : ℚ) ≠ 0) _ f]
    field_simp
  rw [hvalue] at hv ⊢
  rw [hdiv]
  exact denotes_round (quotient_bits hm hn) (holds_quotient hn) hv

/-- Converting a mantissa and an exponent to a float rounds their number. -/
theorem denotes_normalize (hm : 0 < m) (hv : InRange (dyadic m e)) :
    ∃ w, Denotes (.ofModel (.pack (UnpackedFloat.normalize Format.binary64 m e .positive))) w ∧
      Rounded (dyadic m e) w := by
  have hround : UnpackedFloat.normalize Format.binary64 m e .positive =
      UnpackedFloat.round Format.binary64 .positive m e := by
    have hgt : compare (m : Int) 0 = .gt := compare_gt_iff_gt.2 (by omega)
    rw [UnpackedFloat.normalize, hgt]
    rfl
  let k := (e - max (m.log2 + e - 52) (-1074)).toNat
  have hshift : UnpackedFloat.round Format.binary64 .positive m e =
      roundWithAccuracy Format.binary64 .positive (m * 2 ^ k) (e - k) .exact := by
    simp only [UnpackedFloat.round, targetExponent_eq, decreaseExponent, Nat.shiftLeft_eq]
    rfl
  have hvalue : dyadic m e = dyadic (m * 2 ^ k) (e - k) := by
    rw [dyadic_mul_two_pow, sub_add_cancel]
  have hbits : 52 ≤ (m * 2 ^ k).log2 ∨ e - k ≤ -1074 := by
    rw [log2_mul_two_pow hm.ne']
    omega
  rw [hround, hshift]
  rw [hvalue] at hv ⊢
  exact denotes_round hbits (holds_exact _ _) hv

/-! ### Naturals -/

theorem dyadic_zero (m : Nat) : dyadic m 0 = m := by
  rw [dyadic, zpow_zero, mul_one]

/-- Numbers from `2 ^ -53` to `2 ^ 53` are in the range of floats. -/
theorem inRange_of_le (hlow : dyadic 1 (-53) ≤ v) (hhigh : v ≤ dyadic 1 53) : InRange v := by
  have hleast : dyadic 1 (-1074) ≤ dyadic 1 (-53) := dyadic_le_of_exponent_le 1 (by decide)
  have hgreatest : dyadic 1 53 ≤ dyadic (2 ^ 53 - 1) 971 :=
    (dyadic_le_of_exponent_le 1 (by decide)).trans (dyadic_le_iff.2 (by decide))
  exact ⟨hleast.trans hlow, hhigh.trans hgreatest⟩

theorem inRange_natCast (hpos : 0 < n) (hn : n < 2 ^ 53) : InRange n := by
  apply inRange_of_le
  · rw [← dyadic_zero n]
    exact (dyadic_le_of_exponent_le 1 (by decide)).trans (dyadic_le_iff.2 hpos)
  · have hpow : dyadic 1 53 = dyadic (2 ^ 53) 0 := (dyadic_mul_two_pow 1 53 0).symm
    rw [hpow, ← dyadic_zero n]
    exact dyadic_le_iff.2 hn.le

theorem denotes_one : Denotes (Float.ofBits 0x3FF0000000000000) 1 := by
  refine ⟨2 ^ 52, -52, by decide, by rfl, ⟨by decide, by decide, Or.inl le_rfl⟩, ?_⟩
  norm_num [dyadic]

/-- Naturals below `2 ^ 53` are converted exactly. -/
theorem denotes_ofNat (hpos : 0 < n) (hn : n < 2 ^ 53) : Denotes (Float.ofNat n) n := by
  have hexact {w : ℚ} (h : Rounded (n : ℚ) w) : w = n := by
    rw [← dyadic_zero n] at h ⊢
    exact h.eq_dyadic hn (by decide)
  have hconv : ∃ w, Denotes n.toUInt64.toFloat w ∧ Rounded (n : ℚ) w := by
    have hnat : n.toUInt64.toNat = n := by
      rw [Nat.toUInt64_eq, UInt64.toNat_ofNat', Nat.mod_eq_of_lt (by omega)]
    have hvalue := denotes_normalize (e := 0) hpos (by rw [dyadic_zero]; exact inRange_natCast hpos hn)
    rw [dyadic_zero] at hvalue
    have hfloat : n.toUInt64.toFloat =
        .ofModel (.pack (UnpackedFloat.normalize Format.binary64 n 0 .positive)) := by
      change Float.ofModel
        (.pack (UnpackedFloat.normalize Format.binary64 (n.toUInt64.toNat : Nat) 0 .positive)) = _
      rw [hnat]
    rw [hfloat]
    exact hvalue
  obtain ⟨w, hw, hrounded⟩ := hconv
  rw [hexact hrounded] at hw
  have hof : Float.ofNat n = n.toUInt64.toFloat * Float.ofBits 0x3FF0000000000000 := by
    change Float.ofScientific n false 0 = _
    rw [Float.ofScientific, dif_pos ⟨hn, Nat.zero_le _⟩]
    rfl
  obtain ⟨w', hw', hrounded'⟩ := denotes_mul hw denotes_one (by rw [mul_one]; exact inRange_natCast hpos hn)
  rw [mul_one] at hrounded'
  rw [hof, ← hexact hrounded']
  exact hw'

/-! ### Order -/

/-- Floats are ordered like their numbers. -/
theorem Denotes.le_iff (hx : Denotes x p) (hy : Denotes y q) : x ≤ y ↔ p ≤ q := by
  obtain ⟨m, e, hm, hxm, hcx, rfl⟩ := hx
  obtain ⟨n, f, hn, hyn, hcy, rfl⟩ := hy
  have hle : x ≤ y ↔ ((compare e f).then (compare m n)).isLE = true := by
    change decide (x.toModel.unpack.le y.toModel.unpack = true) = true ↔ _
    rw [decide_eq_true_iff, hxm, hyn]
    rfl
  rw [hle]
  rcases lt_trichotomy e f with hlt | rfl | hgt
  · have hexp := hcy.normal.resolve_right (by have := hcx.le_exponent; omega)
    have hdyadic : dyadic m e ≤ dyadic n f := (dyadic_lt_of_exponent_lt hcx.mantissa_lt hexp hlt).le
    rw [compare_lt_iff_lt.2 hlt]
    exact ⟨fun _ => hdyadic, fun _ => rfl⟩
  · rw [compare_eq_iff_eq.2 rfl, dyadic_le_iff, Ordering.eq_then]
    exact Nat.isLE_compare
  · have hexp := hcx.normal.resolve_right (by have := hcy.le_exponent; omega)
    have hdyadic : dyadic n f < dyadic m e := dyadic_lt_of_exponent_lt hcy.mantissa_lt hexp hgt
    rw [compare_gt_iff_gt.2 hgt]
    exact ⟨fun h => (nomatch h), fun h => absurd hdyadic (not_lt.2 h)⟩

end
end Millrace
