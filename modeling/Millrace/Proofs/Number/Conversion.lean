import Millrace.Proofs.Number.Naturals
import Millrace.Proofs.Number.Order

/-!
# Integers as floats

The conversion of integers to floats is monotone (`Whole.toFloat_le`), although it is not injective: integers beyond
`2 ^ 53` may share their float.  The magnitude of an integer is converted like a natural (`denotes_word`), and a minus
sign in front of a float turns the order round (`unpacked_neg_le`).
-/

namespace Millrace

open Float.Model (Format UnpackedFloat)
open Float.Model.UnpackedFloat

/-! ### Minus signs -/

theorem unpack_packComponents_neg (s : Sign) (b : BitVec 11) (c : BitVec 52) :
    unpack Format.binary64 (packComponents Format.binary64 (-s) b c) =
      (unpack Format.binary64 (packComponents Format.binary64 s b c)).neg := by
  have hsign (t : Sign) : Sign.ofBitVec t.toBitVec = t := by cases t <;> rfl
  simp only [unpack, unpackMantissa_packComponents, unpackExponent_packComponents, unpackSign_packComponents, hsign]
  split
  · split <;> rfl
  · split
    · split <;> rfl
    · rfl

/-- A minus sign survives packing. -/
theorem unpack_pack_neg (u : UnpackedFloat) : (Float.Model.pack u.neg).unpack = (Float.Model.pack u).unpack.neg := by
  change unpack Format.binary64 (UnpackedFloat.pack Format.binary64 u.neg) =
    (unpack Format.binary64 (UnpackedFloat.pack Format.binary64 u)).neg
  cases u with
  | notANumber => rfl
  | infinity s | zero s => exact unpack_packComponents_neg s _ _
  | finite s m e hm =>
    simp only [UnpackedFloat.neg, UnpackedFloat.pack]
    split
    · exact unpack_packComponents_neg s _ _
    · split <;> exact unpack_packComponents_neg s _ _

theorem compare_neg (a b : UnpackedFloat) : a.neg.compare b.neg = (a.compare b).map Ordering.swap := by
  rcases a with ⟨_ | _⟩ | _ | _ | ⟨_ | _, i, m, hi⟩ <;> rcases b with ⟨_ | _⟩ | _ | _ | ⟨_ | _, j, n, hj⟩ <;>
    try rfl
  exact congrArg some Ordering.swap_swap.symm

/-- A minus sign turns the order round. -/
theorem unpacked_neg_le (a b : UnpackedFloat) : a.neg.le b.neg = b.le a := by
  rw [UnpackedFloat.le, UnpackedFloat.le, compare_neg, ← compare_unpacked_swap]

/-! ### Magnitudes -/

section
variable {m n k : Nat}

/-- The number of the float next to a natural, which is rounded with `k` more bits. -/
def scaledValue (n k : Nat) : ℚ :=
  dyadic (roundedShift (n * 2 ^ k) (-k) .exact) (-k + firstShift (n * 2 ^ k) (-k))

theorem firstShift_scaled (hn : n ≠ 0) (hk : 52 ≤ n.log2 + k) : firstShift (n * 2 ^ k) (-k) = n.log2 + k - 52 := by
  rw [firstShift, log2_mul_two_pow hn]
  omega

theorem scaledValue_succ (hn : n ≠ 0) (hk : 52 ≤ n.log2 + k) : scaledValue n (k + 1) = scaledValue n k := by
  have hshift : n.log2 + (k + 1) - 52 = n.log2 + k - 52 + 1 := by omega
  have htwo : n * 2 ^ (k + 1) = 2 * (n * 2 ^ k) := by
    rw [Nat.pow_succ]
    ring
  rw [scaledValue, scaledValue, roundedShift, roundedShift, firstShift_scaled hn hk,
    firstShift_scaled hn (by omega), hshift, htwo, shiftRight_two_mul]
  congr 1
  omega

/-- How many bits a natural gets before it is rounded makes no difference. -/
theorem scaledValue_eq (hn : n ≠ 0) (hk : 52 ≤ n.log2 + k) (hle : k ≤ 53) : scaledValue n k = naturalValue n := by
  obtain ⟨j, hj⟩ := Nat.exists_eq_add_of_le hle
  induction j generalizing k with
  | zero =>
    obtain rfl : k = 53 := by omega
    rfl
  | succ j ih =>
    rw [← scaledValue_succ hn hk]
    exact ih (by omega) (by omega) (by omega)

/-- The conversion of a natural of 64 bits gives it 53 bits or more and rounds it. -/
theorem word_eq (hn : n ≠ 0) (hword : n < 2 ^ 64) :
    n.toUInt64.toFloat =
      .ofModel (.pack (roundWithAccuracy Format.binary64 .positive (n * 2 ^ (52 - n.log2)) (-(52 - n.log2 : Nat))
        .exact)) := by
  have hnat : n.toUInt64.toNat = n := by
    rw [Nat.toUInt64_eq, UInt64.toNat_ofNat', Nat.mod_eq_of_lt hword]
  have hgt : compare (n : Int) 0 = .gt := compare_gt_iff_gt.2 (by omega)
  have hshift : (-max ((n.log2 : Int) + 0 - 52) (-1074)).toNat = 52 - n.log2 := by omega
  change Float.ofModel (.pack (UnpackedFloat.normalize Format.binary64 (n.toUInt64.toNat : Nat) 0 .positive)) = _
  rw [hnat, UnpackedFloat.normalize, hgt]
  simp only [UnpackedFloat.round, targetExponent_eq, decreaseExponent, Nat.shiftLeft_eq, Int.toNat_natCast, zero_sub,
    hshift]

/-- The float of a natural of 64 bits is not too large to be packed. -/
theorem exponent_le_of_word {m : Nat} {f : Int} (hn : n ≠ 0) (hword : n < 2 ^ 64) (hc : Canonical m f)
    (hvalue : dyadic m f = naturalValue n) : f ≤ 971 := by
  by_contra hlarge
  have hnormal : 2 ^ 52 ≤ m := hc.normal.resolve_right (by omega)
  have hpow : (n : ℚ) ≤ dyadic 1 64 := by
    rw [show dyadic 1 64 = (2 ^ 64 : Nat) by norm_num [dyadic], Nat.cast_le]
    exact hword.le
  have hhigh : dyadic m f ≤ dyadic 1 64 := by
    rw [hvalue]
    exact (rounded_naturalValue hn 1 64 (by decide) (by decide)).2 hpow
  exact absurd hhigh (not_le.2 (dyadic_lt_of_exponent_lt (by decide) hnormal (by omega)))

/-- A natural of 64 bits is converted to the float next to it. -/
theorem denotes_word (hn : n ≠ 0) (hword : n < 2 ^ 64) : Denotes n.toUInt64.toFloat (naturalValue n) := by
  have hlog : n.log2 < 64 := (Nat.log2_lt hn).2 hword
  have hbits : 52 ≤ (n * 2 ^ (52 - n.log2)).log2 ∨ (-(52 - n.log2 : Nat) : Int) ≤ -1074 := by
    rw [log2_mul_two_pow hn]
    omega
  obtain ⟨m, f, hc, hvalue, hround⟩ := roundWithAccuracy_eq .positive hbits .exact
  have hnatural : dyadic m f = naturalValue n := hvalue.trans (scaledValue_eq hn (by omega) (by omega))
  have hm : 0 < m := by
    by_contra hzero
    obtain rfl : m = 0 := by omega
    have hone := one_le_naturalValue hn
    rw [← hnatural, dyadic] at hone
    norm_num at hone
  rw [dif_neg hm.ne'] at hround
  refine ⟨m, f, hm, ?_, hc, hnatural.symm⟩
  rw [word_eq hn hword, hround]
  exact unpack_pack hm hc (exponent_le_of_word hn hword hc hnatural)

end

/-! ### Integers -/

/-- The float of a natural is zero, or positive and not changed by packing it again. -/
theorem unpack_word {n : Nat} (hword : n < 2 ^ 64) :
    n.toUInt64.toFloat.toModel.unpack = .zero .positive ∨
      ∃ m e hm, n.toUInt64.toFloat.toModel.unpack = .finite .positive m e hm ∧ Canonical m e ∧ e ≤ 971 := by
  rcases Nat.eq_zero_or_pos n with rfl | hpos
  · exact Or.inl rfl
  · obtain ⟨m, e, hm, hunpack, hc, hvalue⟩ := denotes_word hpos.ne' hword
    exact Or.inr ⟨m, e, hm, hunpack, hc, exponent_le_of_word hpos.ne' hword hc hvalue.symm⟩

theorem unpack_neg_word {n : Nat} (hword : n < 2 ^ 64) :
    (-n.toUInt64.toFloat).toModel.unpack = n.toUInt64.toFloat.toModel.unpack.neg := by
  change (Float.Model.pack n.toUInt64.toFloat.toModel.unpack.neg).unpack = _
  rw [unpack_pack_neg]
  rcases unpack_word hword with hzero | ⟨m, e, hm, hfinite, hc, hexp⟩
  · rw [hzero]
    rfl
  · rw [hfinite, unpack_pack hm hc hexp]

theorem word_le {m n : Nat} (h : m ≤ n) (hword : n < 2 ^ 64) : m.toUInt64.toFloat ≤ n.toUInt64.toFloat := by
  rcases Nat.eq_zero_or_pos m with rfl | hpos
  · rw [float_le_iff]
    rcases unpack_word hword with hzero | ⟨k, e, hk, hfinite, -⟩
    · rw [hzero]
      rfl
    · rw [hfinite]
      rfl
  · have hm := denotes_word hpos.ne' (h.trans_lt hword)
    have hn := denotes_word (n := n) (by omega) hword
    exact (hm.le_iff hn).2 (naturalValue_le hpos.ne' h)

theorem neg_word_le_word {m n : Nat} (hm : m < 2 ^ 64) (hn : n < 2 ^ 64) :
    -m.toUInt64.toFloat ≤ n.toUInt64.toFloat := by
  rw [float_le_iff, unpack_neg_word hm]
  rcases unpack_word hm with hm | ⟨k, e, hk, hm, -⟩ <;> rcases unpack_word hn with hn | ⟨l, f, hl, hn, -⟩ <;>
    rw [hm, hn] <;> rfl

theorem neg_word_le_neg_word {m n : Nat} (h : m ≤ n) (hword : n < 2 ^ 64) :
    -n.toUInt64.toFloat ≤ -m.toUInt64.toFloat := by
  rw [float_le_iff, unpack_neg_word hword, unpack_neg_word (h.trans_lt hword), unpacked_neg_le, ← float_le_iff]
  exact word_le h hword

/-- The conversion of integers to floats is monotone. -/
theorem Whole.toFloat_le {a b : Int64} (h : a.toInt ≤ b.toInt) : Whole.toFloat a ≤ Whole.toFloat b := by
  have hbound (c : Int64) : c.toInt.natAbs < 2 ^ 64 := by
    have hlow := c.le_toInt
    have hhigh := c.toInt_lt
    omega
  have hneg (c : Int64) : c < 0 ↔ c.toInt < 0 := Int64.lt_iff_toInt_lt
  simp only [Whole.toFloat, hneg]
  by_cases ha : a.toInt < 0
  · rw [if_pos ha]
    by_cases hb : b.toInt < 0
    · rw [if_pos hb]
      exact neg_word_le_neg_word (by omega) (hbound a)
    · rw [if_neg hb]
      exact neg_word_le_word (hbound a) (hbound b)
  · rw [if_neg ha, if_neg (by omega)]
    exact word_le (by omega) (hbound b)

end Millrace
