import Millrace.Number.Decimal
import Millrace.Proofs.Number.Arithmetic
import Millrace.Proofs.Number.Digits

/-!
# Significant digits

A number is rounded to the next multiple of a power of ten, a half going to the even one (`RoundsAt`).  Significant
digits are counted from the first digit of the number (`RoundsTo`), which rounding may move: `9.96` is `10.0` in two and
in three digits.  It does not matter whether the digits are then counted from the old or from the new first digit
(`RoundsTo.again_of_pos`).

## Main statements

* `RoundsAt.unique`: there is one rounded number.
* `RoundsTo.again_of_pos`: digits counted from the first one after rounding.
* `ofFloat?_finite`: the sign, mantissa and exponent of a float.
* `significant_spec`: the digits that a float is rounded to.
* `value_significant`, `digits_significant`: the same number and digits from rounding at the place of the last digit.
-/

namespace Millrace

/-! ### Multiples of powers of ten -/

/-- A number with a minus sign or without. -/
def signed (negative : Bool) (q : ℚ) : ℚ := if negative then -q else q

/-- The number `r` is the multiple of `10 ^ unit` next to `q`, and of two the even one. -/
def RoundsAt (unit : ℤ) (q r : ℚ) : Prop :=
  ∃ n : ℤ, r = n * 10 ^ unit ∧ |q - r| ≤ 10 ^ unit / 2 ∧ (|q - r| = 10 ^ unit / 2 → Even n)

/-- The number `r` is `q` rounded to `p` significant digits. -/
def RoundsTo (p : ℕ) (q r : ℚ) : Prop := RoundsAt (Int.log 10 |q| + 1 - p) q r

section
variable {unit e : ℤ} {q r s : ℚ} {p : ℕ}

theorem RoundsAt.neg (h : RoundsAt unit q r) : RoundsAt unit (-q) (-r) := by
  obtain ⟨n, rfl, hnear, heven⟩ := h
  have hdistance : |-q - -(n * 10 ^ unit : ℚ)| = |q - n * 10 ^ unit| := by rw [neg_sub_neg, abs_sub_comm]
  refine ⟨-n, by push_cast; ring, ?_, ?_⟩
  · rwa [hdistance]
  · rw [hdistance]
    exact fun h => (heven h).neg

theorem ten_zpow_pos (unit : ℤ) : (0 : ℚ) < 10 ^ unit := by positivity

/-- Rounding stays on the same side of multiples. -/
theorem RoundsAt.le_multiple (h : RoundsAt unit q r) {k : ℤ} (hq : q ≤ k * 10 ^ unit) : r ≤ k * 10 ^ unit := by
  obtain ⟨n, rfl, hnear, -⟩ := h
  have hunit := ten_zpow_pos unit
  by_contra hgt
  have hlt : k < n := by
    rw [not_le, mul_lt_mul_iff_of_pos_right hunit, Int.cast_lt] at hgt
    exact hgt
  have hstep : ((k : ℚ) + 1) * 10 ^ unit ≤ n * 10 ^ unit := by
    rw [mul_le_mul_iff_of_pos_right hunit]
    exact_mod_cast hlt
  have hbelow := neg_le_of_abs_le hnear
  linarith

theorem RoundsAt.multiple_le (h : RoundsAt unit q r) {k : ℤ} (hq : k * 10 ^ unit ≤ q) : k * 10 ^ unit ≤ r := by
  have hneg := h.neg.le_multiple (k := -k) (by push_cast; linarith)
  push_cast at hneg
  linarith

theorem RoundsAt.le (hr : RoundsAt unit q r) (hs : RoundsAt unit q s) : r ≤ s := by
  obtain ⟨n, rfl, hn, hneven⟩ := hr
  obtain ⟨m, rfl, hm, hmeven⟩ := hs
  have hunit := ten_zpow_pos unit
  by_contra hgt
  rw [not_le, mul_lt_mul_iff_of_pos_right hunit, Int.cast_lt] at hgt
  have hstep : ((m : ℚ) + 1) * 10 ^ unit ≤ n * 10 ^ unit := by
    rw [mul_le_mul_iff_of_pos_right hunit]
    exact_mod_cast hgt
  have habove := neg_le_of_abs_le hn
  have hbelow := le_of_abs_le hm
  -- the number lies in the middle between two multiples that follow each other
  have hq : q = m * 10 ^ unit + 10 ^ unit / 2 := by linarith
  have hnext : n = m + 1 := by
    have hle : (n : ℚ) * 10 ^ unit ≤ ((m + 1 : ℤ) : ℚ) * 10 ^ unit := by
      push_cast
      linarith
    rw [mul_le_mul_iff_of_pos_right hunit, Int.cast_le] at hle
    omega
  subst hnext
  have hhalf : (0 : ℚ) ≤ 10 ^ unit / 2 := by positivity
  have hmdistance : |q - m * 10 ^ unit| = 10 ^ unit / 2 := by
    rw [hq, add_sub_cancel_left, abs_of_nonneg hhalf]
  have hndistance : |q - ((m + 1 : ℤ) : ℚ) * 10 ^ unit| = 10 ^ unit / 2 := by
    have hsub : q - ((m + 1 : ℤ) : ℚ) * 10 ^ unit = -(10 ^ unit / 2) := by
      rw [hq]
      push_cast
      ring
    rw [hsub, abs_neg, abs_of_nonneg hhalf]
  exact Int.not_even_iff_odd.2 (hmeven hmdistance).add_one (hneven hndistance)

/-- There is only one rounded number. -/
theorem RoundsAt.unique (hr : RoundsAt unit q r) (hs : RoundsAt unit q s) : r = s := le_antisymm (hr.le hs) (hs.le hr)

/-- A multiple is rounded to itself, also where the multiples are farther apart. -/
theorem roundsAt_of_near {n : ℤ} (h : |q - n * 10 ^ unit| < 10 ^ unit / 2) : RoundsAt unit q (n * 10 ^ unit) :=
  ⟨n, rfl, h.le, fun heq => absurd heq h.ne⟩

/-! ### Significant digits -/

theorem log_eq_of_bounds (hlow : (10 : ℚ) ^ e ≤ q) (hhigh : q < (10 : ℚ) ^ (e + 1)) : Int.log 10 q = e := by
  have hq : 0 < q := (ten_zpow_pos e).trans_le hlow
  have hle : e ≤ Int.log 10 q := (Int.zpow_le_iff_le_log (by decide) hq).1 (by exact_mod_cast hlow)
  have hlt : Int.log 10 q < e + 1 := (Int.lt_zpow_iff_log_lt (by decide) hq).1 (by exact_mod_cast hhigh)
  omega

theorem log_bounds (hq : 0 < q) : (10 : ℚ) ^ Int.log 10 q ≤ q ∧ q < (10 : ℚ) ^ (Int.log 10 q + 1) :=
  ⟨by exact_mod_cast Int.zpow_log_le_self (b := 10) (by decide) hq,
    by exact_mod_cast Int.lt_zpow_succ_log_self (b := 10) (by decide) q⟩

theorem zpow_eq_multiple (p : ℕ) (e : ℤ) : (10 : ℚ) ^ e = ((10 ^ p : ℕ) : ℤ) * 10 ^ (e - p) := by
  push_cast
  rw [← zpow_natCast, ← zpow_add₀ (by norm_num)]
  congr 1
  ring

/-- A positive number is rounded to one with its first digit at the same place, or to the next power of ten. -/
theorem RoundsTo.bounds (h : RoundsTo p q r) (hq : 0 < q) (hp : 1 ≤ p) :
    (10 : ℚ) ^ Int.log 10 q ≤ r ∧ r ≤ (10 : ℚ) ^ (Int.log 10 q + 1) := by
  rw [RoundsTo, abs_of_pos hq] at h
  obtain ⟨hlow, hhigh⟩ := log_bounds hq
  have hfirst := zpow_eq_multiple (p - 1) (Int.log 10 q)
  have hnext := zpow_eq_multiple p (Int.log 10 q + 1)
  rw [show Int.log 10 q - (p - 1 : ℕ) = Int.log 10 q + 1 - p by omega] at hfirst
  exact ⟨hfirst ▸ h.multiple_le (hfirst ▸ hlow), hnext ▸ h.le_multiple (hnext ▸ hhigh.le)⟩

theorem RoundsTo.again_of_pos (h : RoundsTo p q r) (hq : 0 < q) (hp : 1 ≤ p) :
    RoundsAt (Int.log 10 r + 1 - p) q r := by
  obtain ⟨hlow, hhigh⟩ := h.bounds hq hp
  rw [RoundsTo, abs_of_pos hq] at h
  rcases hhigh.lt_or_eq with hlt | rfl
  · rwa [log_eq_of_bounds hlow hlt]
  · -- the digits are counted from the next place, and the number lies well within half a unit of it
    have hlog : Int.log 10 ((10 : ℚ) ^ (Int.log 10 q + 1)) = Int.log 10 q + 1 :=
      log_eq_of_bounds le_rfl (zpow_lt_zpow_right₀ (by norm_num) (by omega))
    obtain ⟨-, -, hnear, -⟩ := h
    have hmultiple := zpow_eq_multiple (p - 1) (Int.log 10 q + 1)
    rw [show Int.log 10 q + 1 - (p - 1 : ℕ) = Int.log 10 q + 1 + 1 - p by omega] at hmultiple
    rw [hlog]
    have hcoarse : (10 : ℚ) ^ (Int.log 10 q + 1 - p) / 2 < 10 ^ (Int.log 10 q + 1 + 1 - p) / 2 := by
      have hlt : (10 : ℚ) ^ (Int.log 10 q + 1 - p) < 10 ^ (Int.log 10 q + 1 + 1 - p) :=
        zpow_lt_zpow_right₀ (by norm_num) (by omega)
      linarith
    rw [hmultiple] at hnear ⊢
    exact roundsAt_of_near (hnear.trans_lt hcoarse)

theorem RoundsTo.signed (h : RoundsTo p q r) (negative : Bool) :
    RoundsTo p (signed negative q) (signed negative r) := by
  cases negative with
  | false => exact h
  | true =>
    change RoundsAt (Int.log 10 |-q| + 1 - p) (-q) (-r)
    rw [abs_neg]
    exact RoundsAt.neg h

end

/-! ### Quotients -/

section
variable {a b num den : ℕ}

theorem natCast_div_eq (hb : b ≠ 0) (a : ℕ) : (a : ℚ) / b = (a / b : ℕ) + (a % b : ℕ) / b := by
  have hdivision : (a : ℚ) = b * (a / b : ℕ) + (a % b : ℕ) := by exact_mod_cast (Nat.div_add_mod a b).symm
  have hb' : (b : ℚ) ≠ 0 := by exact_mod_cast hb
  conv_lhs => rw [hdivision]
  rw [add_div, mul_div_cancel_left₀ _ hb']

/-- The rounded quotient is the whole number next to it. -/
theorem roundQuotient_near (hb : b ≠ 0) (a : ℕ) :
    |(a : ℚ) / b - roundQuotient a b| ≤ 1 / 2 ∧
      (|(a : ℚ) / b - roundQuotient a b| = 1 / 2 → Even (roundQuotient a b)) := by
  have hpos : (0 : ℚ) < b := by exact_mod_cast Nat.pos_of_ne_zero hb
  have hnonneg : (0 : ℚ) ≤ (a % b : ℕ) / b := by positivity
  rw [natCast_div_eq hb a, roundQuotient]
  split_ifs with hless hmore
  · have hf : ((a % b : ℕ) : ℚ) / b < 1 / 2 := by
      rw [div_lt_div_iff₀ hpos (by norm_num)]
      exact_mod_cast (by omega : a % b * 2 < 1 * b)
    rw [add_sub_cancel_left, abs_of_nonneg hnonneg]
    exact ⟨hf.le, fun heq => absurd heq hf.ne⟩
  · have hf : 1 / 2 < ((a % b : ℕ) : ℚ) / b := by
      rw [div_lt_div_iff₀ (by norm_num) hpos]
      exact_mod_cast (by omega : 1 * b < a % b * 2)
    have hlt : ((a % b : ℕ) : ℚ) / b < 1 := by
      rw [div_lt_one hpos]
      exact_mod_cast Nat.mod_lt a (Nat.pos_of_ne_zero hb)
    have hdistance : |((a / b : ℕ) : ℚ) + (a % b : ℕ) / b - ((a / b + 1 : ℕ) : ℚ)| = 1 - (a % b : ℕ) / b := by
      rw [abs_of_nonpos]
      · push_cast
        ring
      · push_cast
        linarith
    rw [hdistance]
    exact ⟨by linarith, fun heq => absurd heq (by linarith)⟩
  · have hf : ((a % b : ℕ) : ℚ) / b = 1 / 2 := by
      rw [div_eq_div_iff hpos.ne' (by norm_num)]
      exact_mod_cast (by omega : a % b * 2 = 1 * b)
    rw [hf]
    rcases Nat.mod_two_eq_zero_or_one (a / b) with heven | hodd
    · rw [heven, add_zero, add_sub_cancel_left, abs_of_nonneg (by norm_num)]
      exact ⟨le_rfl, fun _ => Nat.even_iff.2 heven⟩
    · have hdistance : |((a / b : ℕ) : ℚ) + 1 / 2 - ((a / b + 1 : ℕ) : ℚ)| = 1 / 2 := by
        rw [abs_of_nonpos] <;> push_cast <;> linarith
      rw [hodd, hdistance]
      exact ⟨le_rfl, fun _ => Nat.even_iff.2 (by omega)⟩

theorem roundsAt_roundQuotient (hb : b ≠ 0) (a : ℕ) (unit : ℤ) :
    RoundsAt unit (a / b * 10 ^ unit) (roundQuotient a b * 10 ^ unit) := by
  have hunit := ten_zpow_pos unit
  have hscale : |(a : ℚ) / b * 10 ^ unit - roundQuotient a b * 10 ^ unit| =
      |(a : ℚ) / b - roundQuotient a b| * 10 ^ unit := by
    rw [← sub_mul, abs_mul, abs_of_pos hunit]
  obtain ⟨hnear, heven⟩ := roundQuotient_near hb a
  refine ⟨roundQuotient a b, by push_cast; rfl, ?_, fun heq => ?_⟩
  · rw [hscale]
    calc
      |(a : ℚ) / b - roundQuotient a b| * 10 ^ unit ≤ 1 / 2 * 10 ^ unit := by gcongr
      _ = 10 ^ unit / 2 := by ring
  · have hhalf : |(a : ℚ) / b - roundQuotient a b| * 10 ^ unit = 1 / 2 * 10 ^ unit := by
      rw [← hscale, heq]
      ring
    exact_mod_cast heven (mul_right_cancel₀ hunit.ne' hhalf)

theorem inUnits_quotient (hden : den ≠ 0) (num : ℕ) (unit : ℤ) :
    (inUnits num den unit).2 ≠ 0 ∧
      ((inUnits num den unit).1 : ℚ) / (inUnits num den unit).2 * 10 ^ unit = num / den := by
  refine ⟨Nat.mul_ne_zero hden (pow_ne_zero _ (by decide)), ?_⟩
  have hpow (k : ℕ) : ((Nat.pow 10 k : ℕ) : ℚ) = 10 ^ (k : ℤ) := by
    rw [zpow_natCast]
    exact_mod_cast rfl
  have hden' : (den : ℚ) ≠ 0 := by exact_mod_cast hden
  simp only [inUnits, Nat.cast_mul, hpow]
  rcases le_total 0 unit with hnonneg | hnonpos
  · rw [Int.toNat_of_nonneg hnonneg, Int.toNat_of_nonpos (by omega)]
    field_simp
    simp
  · rw [Int.toNat_of_nonneg (by omega : 0 ≤ -unit), Int.toNat_of_nonpos hnonpos, zpow_neg]
    field_simp
    simp

/-- The exponent of the first digit of a quotient. -/
theorem log_quotient (hnum : num ≠ 0) (hden : den ≠ 0) : Int.log 10 ((num : ℚ) / den) = decimalExponent num den := by
  have hnum' : (0 : ℚ) < num := by exact_mod_cast Nat.pos_of_ne_zero hnum
  have hden' : (0 : ℚ) < den := by exact_mod_cast Nat.pos_of_ne_zero hden
  have hcount (n : ℕ) : ∃ k, Digits.count n = k + 1 := Nat.exists_eq_succ_of_ne_zero (by
    rw [Digits.count, Ne, List.length_eq_zero_iff]
    exact Digits.ofNat_ne_nil n)
  rw [decimalExponent]
  split
  · next hle =>
    obtain ⟨k, hk⟩ := hcount (num / den)
    have hne : num / den ≠ 0 := (Nat.div_pos hle (Nat.pos_of_ne_zero hden)).ne'
    obtain ⟨hlow, hhigh⟩ := (Digits.length_ofNat_iff hne).1 hk
    rw [Nat.le_div_iff_mul_le (Nat.pos_of_ne_zero hden)] at hlow
    rw [Nat.div_lt_iff_lt_mul (Nat.pos_of_ne_zero hden)] at hhigh
    have hexponent : ((k + 1 : ℕ) : ℤ) - 1 = k := by omega
    rw [hk, hexponent]
    refine log_eq_of_bounds ?_ ?_
    · rw [zpow_natCast, le_div_iff₀ hden']
      exact_mod_cast hlow
    · rw [← Nat.cast_succ, zpow_natCast, div_lt_iff₀ hden']
      exact_mod_cast hhigh
  · next hlt =>
    obtain ⟨k, hk⟩ := hcount ((den - 1) / num)
    have hne : (den - 1) / num ≠ 0 := (Nat.div_pos (by omega) (Nat.pos_of_ne_zero hnum)).ne'
    obtain ⟨hlow, hhigh⟩ := (Digits.length_ofNat_iff hne).1 hk
    rw [Nat.le_div_iff_mul_le (Nat.pos_of_ne_zero hnum)] at hlow
    rw [Nat.div_lt_iff_lt_mul (Nat.pos_of_ne_zero hnum)] at hhigh
    have hexponent : -((k + 1 : ℕ) : ℤ) + 1 = -k := by omega
    rw [hk]
    refine log_eq_of_bounds ?_ ?_
    · rw [zpow_neg, zpow_natCast, inv_eq_one_div, div_le_div_iff₀ (by positivity) hden', one_mul]
      exact_mod_cast (by rw [Nat.mul_comm]; omega : den ≤ num * 10 ^ (k + 1))
    · rw [hexponent, zpow_neg, zpow_natCast, inv_eq_one_div, div_lt_div_iff₀ hden' (by positivity), one_mul]
      exact_mod_cast (by rw [Nat.mul_comm]; omega : num * 10 ^ k < den)

end

/-! ### Decimals -/

namespace Decimal

/-- The number that a decimal stands for. -/
def value (d : Decimal) : ℚ := Digits.toNat d.digits * 10 ^ (d.exponent + 1 - d.digits.length)

/-- A decimal of at least one digit, the first of which is not zero. -/
structure IsNormal (d : Decimal) : Prop where
  nonempty : d.digits ≠ []
  digit : ∀ k ∈ d.digits, k < 10
  first : d.digits.head? ≠ some 0

variable {d : Decimal}

theorem IsNormal.exists_cons (h : d.IsNormal) : ∃ first rest, d.digits = first :: rest ∧ first ≠ 0 := by
  obtain ⟨first, rest, hdigits⟩ := List.exists_cons_of_ne_nil h.nonempty
  have hhead := h.first
  rw [hdigits] at hhead
  exact ⟨first, rest, hdigits, fun hzero => hhead (congrArg some hzero)⟩

theorem IsNormal.bounds (h : d.IsNormal) : (10 : ℚ) ^ d.exponent ≤ d.value ∧ d.value < (10 : ℚ) ^ (d.exponent + 1) := by
  obtain ⟨first, rest, hdigits, hfirst⟩ := h.exists_cons
  have hlow := Digits.pow_le_toNat hfirst rest
  have hhigh := Digits.toNat_lt h.digit
  rw [hdigits] at hhigh
  have hunit := ten_zpow_pos (d.exponent + 1 - d.digits.length)
  have hlowest := zpow_eq_multiple rest.length d.exponent
  have hhighest := zpow_eq_multiple d.digits.length (d.exponent + 1)
  have hlength : d.exponent - rest.length = d.exponent + 1 - d.digits.length := by
    rw [hdigits, List.length_cons]
    push_cast
    ring
  rw [hlength] at hlowest
  rw [hlowest, hhighest, value, mul_le_mul_iff_of_pos_right hunit, mul_lt_mul_iff_of_pos_right hunit, hdigits]
  exact ⟨by exact_mod_cast hlow, by exact_mod_cast hhigh⟩

theorem IsNormal.pos (h : d.IsNormal) : 0 < d.value := (ten_zpow_pos _).trans_le h.bounds.1

theorem IsNormal.log_value (h : d.IsNormal) : Int.log 10 d.value = d.exponent :=
  log_eq_of_bounds h.bounds.1 h.bounds.2

end Decimal

/-! ### The parts of a float -/

open Float.Model (Format UnpackedFloat)
open Float.Model.UnpackedFloat

/-- Whether a sign is a minus sign. -/
def isMinus : Sign → Bool
  | .negative => true
  | .positive => false

namespace Exact

section
variable (b : BitVec Format.binary64.numBits)

theorem unpackMantissa_toNat : (@unpackMantissa Format.binary64 b).toNat = b.toNat % fractions := by
  simp only [unpackMantissa, BitVec.toNat_cast, BitVec.extractLsb_toNat, Nat.shiftRight_zero]
  rfl

theorem unpackExponent_toNat : (@unpackExponent Format.binary64 b).toNat = b.toNat / fractions % 2048 := by
  simp only [unpackExponent, BitVec.toNat_cast, BitVec.extractLsb_toNat, Nat.shiftRight_eq_div_pow]
  rfl

theorem isMinus_unpackSign :
    isMinus (Sign.ofBitVec (@unpackSign Format.binary64 b)) = decide (signWeight ≤ b.toNat) := by
  have hbit : (@unpackSign Format.binary64 b).toNat = b.toNat / signWeight % 2 := by
    simp only [unpackSign, BitVec.toNat_cast, BitVec.extractLsb_toNat, Nat.shiftRight_eq_div_pow]
    rfl
  have hlt := b.isLt
  change b.toNat < 18446744073709551616 at hlt
  simp only [signWeight] at hbit ⊢
  rw [Sign.ofBitVec]
  split
  · next hzero =>
    rw [hzero] at hbit
    change 0 = _ at hbit
    exact (decide_eq_false (by omega)).symm
  · next hone =>
    have hne : (@unpackSign Format.binary64 b).toNat ≠ 0 := fun hzero => hone (BitVec.eq_of_toNat_eq hzero)
    exact (decide_eq_true (by omega)).symm

end

/-- The value of a finite float that is not zero has the sign, mantissa and exponent of the float. -/
theorem ofFloat?_finite {x : Float} {s : Sign} {m : ℕ} {e : ℤ} {hm : 0 < m}
    (h : x.toModel.unpack = .finite s m e hm) : ofFloat? x = some ⟨isMinus s, m, e⟩ := by
  have hmantissa := unpackMantissa_toNat x.toBits.toBitVec
  have hexponent := unpackExponent_toNat x.toBits.toBitVec
  have hsign := isMinus_unpackSign x.toBits.toBitVec
  change UnpackedFloat.unpack Format.binary64 x.toBits.toBitVec = _ at h
  simp only [UnpackedFloat.unpack] at h
  rw [ofFloat?]
  have hbits : x.toBits.toNat = x.toBits.toBitVec.toNat := rfl
  rw [hbits, ← hexponent, ← hmantissa, signBit, hbits, ← hsign]
  split at h
  · split at h <;> cases h
  · next hfinite =>
    have hne : (@unpackExponent Format.binary64 x.toBits.toBitVec).toNat ≠ 2047 := fun heq =>
      hfinite (BitVec.eq_of_toNat_eq heq)
    rw [if_neg hne]
    split at h
    · next hzero =>
      split at h
      · cases h
      · cases h
        rw [hzero]
        rfl
    · next hnonzero =>
      have hpos : (@unpackExponent Format.binary64 x.toBits.toBitVec).toNat ≠ 0 := fun heq =>
        hnonzero (BitVec.eq_of_toNat_eq heq)
      cases h
      rw [if_neg hpos, toNat_append_one]
      rfl

/-! ### The digits of a float -/

/-- The magnitude of a float as a number. -/
def magnitude (x : Exact) : ℚ := dyadic x.mantissa x.exponent

variable {x : Exact} {p : ℕ}

theorem magnitude_pos (hx : x.mantissa ≠ 0) : 0 < x.magnitude := dyadic_pos (Nat.pos_of_ne_zero hx) _

theorem ratio_spec (x : Exact) : x.ratio.2 ≠ 0 ∧ (x.ratio.1 : ℚ) / x.ratio.2 = x.magnitude := by
  refine ⟨pow_ne_zero _ (by decide), ?_⟩
  have hpow (k : ℕ) : ((Nat.pow 2 k : ℕ) : ℚ) = 2 ^ (k : ℤ) := by
    rw [zpow_natCast]
    exact_mod_cast rfl
  simp only [ratio, Nat.cast_mul, hpow, magnitude, dyadic]
  rcases le_total 0 x.exponent with hnonneg | hnonpos
  · rw [Int.toNat_of_nonneg hnonneg, Int.toNat_of_nonpos (by omega)]
    simp
  · rw [Int.toNat_of_nonneg (by omega : 0 ≤ -x.exponent), Int.toNat_of_nonpos hnonpos, zpow_neg]
    simp

/-- The magnitude in units of a power of ten, rounded. -/
def units (x : Exact) (unit : ℤ) : ℕ :=
  roundQuotient (inUnits x.ratio.1 x.ratio.2 unit).1 (inUnits x.ratio.1 x.ratio.2 unit).2

theorem roundsAt_units (x : Exact) (unit : ℤ) : RoundsAt unit x.magnitude (x.units unit * 10 ^ unit) := by
  obtain ⟨hne, hquotient⟩ := inUnits_quotient x.ratio_spec.1 x.ratio.1 unit
  rw [← x.ratio_spec.2, ← hquotient]
  exact roundsAt_roundQuotient hne _ unit

/-- The significant digits are the digits of the magnitude in units of the last one. -/
theorem significant_eq (hx : x.mantissa ≠ 0) (hp : 1 ≤ p) :
    x.significant p = ⟨(Digits.ofNat (x.units (Int.log 10 x.magnitude + 1 - p))).take p,
      Int.log 10 x.magnitude - p + (Digits.ofNat (x.units (Int.log 10 x.magnitude + 1 - p))).length⟩ := by
  have hnum : x.ratio.1 ≠ 0 := Nat.mul_ne_zero hx (pow_ne_zero _ (by decide))
  have hunit : decimalExponent x.ratio.1 x.ratio.2 - (p - 1 : ℕ) = Int.log 10 x.magnitude + 1 - p := by
    rw [← log_quotient hnum x.ratio_spec.1, x.ratio_spec.2]
    omega
  rw [significant, if_neg hx]
  simp only [hunit, Decimal.ofUnits]
  congr 1
  change Int.log 10 x.magnitude + 1 - p + ((Digits.ofNat (x.units _)).length : ℤ) - 1 = _
  ring

/-- Rounding a float to significant digits: there are as many as asked for, and the decimal is the rounded number. -/
theorem significant_spec (hx : x.mantissa ≠ 0) (hp : 1 ≤ p) :
    (x.significant p).IsNormal ∧ (x.significant p).digits.length = p ∧
      RoundsTo p x.magnitude (x.significant p).value := by
  have hpos := magnitude_pos hx
  have hround : RoundsTo p x.magnitude (x.units (Int.log 10 x.magnitude + 1 - p) *
      10 ^ (Int.log 10 x.magnitude + 1 - p)) := by
    rw [RoundsTo, abs_of_pos hpos]
    exact x.roundsAt_units _
  obtain ⟨hlow, hhigh⟩ := hround.bounds hpos hp
  rw [significant_eq hx hp]
  generalize x.units (Int.log 10 x.magnitude + 1 - p) = c at *
  generalize Int.log 10 x.magnitude = e at *
  have hunit := ten_zpow_pos (e + 1 - p)
  have hfirst := zpow_eq_multiple (p - 1) e
  rw [show e - (p - 1 : ℕ) = e + 1 - p by omega] at hfirst
  rw [hfirst, mul_le_mul_iff_of_pos_right hunit] at hlow
  rw [zpow_eq_multiple p (e + 1), mul_le_mul_iff_of_pos_right hunit] at hhigh
  have hlow : 10 ^ (p - 1) ≤ c := by exact_mod_cast hlow
  have hhigh : c ≤ 10 ^ p := by exact_mod_cast hhigh
  rcases hhigh.lt_or_eq with hlt | rfl
  · have hc : c ≠ 0 := (Nat.lt_of_lt_of_le (Nat.pow_pos (by decide)) hlow).ne'
    have hlength : (Digits.ofNat c).length = p := by
      have hdigits := (Digits.length_ofNat_iff hc (k := p - 1)).2 ⟨hlow, by rwa [Nat.sub_add_cancel hp]⟩
      rwa [Nat.sub_add_cancel hp] at hdigits
    rw [List.take_of_length_le hlength.le]
    refine ⟨⟨Digits.ofNat_ne_nil c, fun _ => Digits.lt_ten_of_mem_ofNat, Digits.head?_ofNat hc⟩, hlength, ?_⟩
    convert hround using 1
    rw [Decimal.value, Digits.toNat_ofNat, hlength]
    congr 2
    ring
  · -- the carry of all digits has left a one and zeros
    obtain ⟨k, rfl⟩ := Nat.exists_eq_add_of_le' hp
    have htake : (Digits.ofNat (10 ^ (k + 1))).take (k + 1) = 1 :: List.replicate k 0 := by
      rw [Digits.ofNat_pow_ten, List.take_succ_cons, List.take_replicate, Nat.min_eq_left (Nat.le_succ k)]
    have hlength : (Digits.ofNat (10 ^ (k + 1))).length = k + 2 := by
      rw [Digits.ofNat_pow_ten, List.length_cons, List.length_replicate]
    rw [htake, hlength]
    refine ⟨⟨List.cons_ne_nil _ _, fun d hd => ?_, by simp⟩, by simp, ?_⟩
    · obtain rfl | hd := List.mem_cons.1 hd
      · decide
      · rw [List.eq_of_mem_replicate hd]
        decide
    · convert hround using 1
      have hshift : e - (k + 1 : ℕ) + (k + 2 : ℕ) + 1 - (k + 1 : ℕ) = e + 1 - (k + 1 : ℕ) + 1 := by
        push_cast
        ring
      rw [Decimal.value, Digits.toNat_cons, Digits.toNat_zeros, List.length_cons, List.length_replicate, hshift,
        zpow_add_one₀ (by norm_num)]
      push_cast
      ring

/-- Rounding at the place of the last significant digit gives the same number, although that place is known only from
the digits. -/
theorem value_significant (hx : x.mantissa ≠ 0) (hp : 1 ≤ p) : (x.significant p).value =
    x.units ((x.significant p).exponent + 1 - p) * 10 ^ ((x.significant p).exponent + 1 - p) := by
  obtain ⟨hnormal, -, hround⟩ := significant_spec hx hp
  have hagain := hround.again_of_pos (magnitude_pos hx) hp
  rw [hnormal.log_value] at hagain
  exact hagain.unique (x.roundsAt_units _)

theorem digits_significant (hx : x.mantissa ≠ 0) (hp : 1 ≤ p) :
    (x.significant p).digits = Digits.ofNat (x.units ((x.significant p).exponent + 1 - p)) := by
  obtain ⟨hnormal, hlength, -⟩ := significant_spec hx hp
  have hvalue := value_significant hx hp
  rw [Decimal.value, hlength] at hvalue
  have hunits : Digits.toNat (x.significant p).digits = x.units ((x.significant p).exponent + 1 - p) := by
    exact_mod_cast mul_right_cancel₀ (ten_zpow_pos _).ne' hvalue
  rw [← hunits, Digits.ofNat_toNat hnormal.nonempty hnormal.digit hnormal.first]

end Exact
end Millrace
