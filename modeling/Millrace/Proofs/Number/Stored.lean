import Millrace.Number.Real
import Millrace.Proofs.Number.Arithmetic

/-!
# Stored floats and their numbers

The word of a float that is no nan is put together again from the sign, the exponent and the mantissa that it is read as
(`pack_unpack`).  So only the sign and the payload of a nan are lost when a stored float is computed with
(`Double.ofFloat_toFloat`), and no `Float` is lost when it is stored (`Double.toFloat_ofFloat`).

## Main statements

* `Double.ofFloat_toFloat`: stored floats that are numbers.
* `Double.toFloat_neg`: the sign bit.
* `Number.toFloat_toDouble`: numbers are compared as the floats that they are computed with.
-/

namespace Millrace

open Float.Model (Format UnpackedFloat)
open Float.Model.UnpackedFloat

section
variable {b : BitVec Format.binary64.numBits} {s : Sign} {e : BitVec 11} {m : BitVec 52}

/-- A word is put together from its three parts. -/
theorem packComponents_parts (b : BitVec Format.binary64.numBits) :
    packComponents Format.binary64 (Sign.ofBitVec (unpackSign b)) (unpackExponent b) (unpackMantissa b) = b := by
  have hsign (s : BitVec 1) : (Sign.ofBitVec s).toBitVec = s := by
    rcases BitVec.eq_zero_or_eq_one s with rfl | rfl <;> rfl
  rw [packComponents, hsign]
  change b.extractLsb' (52 + 11) 1 ++ b.extractLsb' (0 + 52) 11 ++ b.extractLsb' 0 52 = b
  ext i hi
  simp only [BitVec.getElem_append, BitVec.getElem_extractLsb']
  grind

/-- A float below the normal ones has the exponent zero. -/
theorem pack_subnormal (hm : 0 < m.toNat) :
    pack Format.binary64 (.finite s m.toNat (-1074) hm) = packComponents Format.binary64 s 0#11 m := by
  have hlog : ¬ m.toNat.log2 + 1 = 53 := by
    have := (Nat.log2_lt hm.ne').2 m.isLt
    omega
  calc pack Format.binary64 (.finite s m.toNat (-1074) hm)
    _ = packComponents Format.binary64 s 0#11 (.ofNat 52 m.toNat) := if_neg hlog
    _ = packComponents Format.binary64 s 0#11 m := by rw [BitVec.ofNat_toNat, BitVec.setWidth_eq]

/-- A normal float has a leading digit that is not stored. -/
theorem pack_normal (hmax : e ≠ -1#11) (hm : 0 < (1#1 ++ m).toNat) :
    pack Format.binary64 (.finite s (1#1 ++ m).toNat (e.toNat - 1075) hm) = packComponents Format.binary64 s e m := by
  have hm' := m.isLt
  have he : e.toNat ≠ 2047 := fun h => hmax (BitVec.eq_of_toNat_eq h)
  have he' : e.toNat < 2 ^ 11 := e.isLt
  have hmantissa : (1#1 ++ m).toNat = 2 ^ 52 + m.toNat := toNat_append_one m
  have hbiased : ((e.toNat : Int) - 1075 + 1023 + 52).toNat = e.toNat := by omega
  have hfits : ¬ 2 ^ 11 ≤ ((e.toNat : Int) - 1075 + 1023 + 52).toNat + 1 := by omega
  have hlog : (1#1 ++ m).toNat.log2 + 1 = 53 := by
    have hlow := (Nat.le_log2 hm.ne').2 (show 2 ^ 52 ≤ _ by omega)
    have hhigh := (Nat.log2_lt hm.ne').2 (show _ < 2 ^ 53 by omega)
    omega
  calc pack Format.binary64 (.finite s (1#1 ++ m).toNat (e.toNat - 1075) hm)
    _ = packComponents Format.binary64 s (.ofNat 11 ((e.toNat : Int) - 1075 + 1023 + 52).toNat)
          (.ofNat 52 (1#1 ++ m).toNat) := (if_neg hfits).trans (if_pos hlog)
    _ = packComponents Format.binary64 s e m := by
      congr 1
      · rw [hbiased, BitVec.ofNat_toNat, BitVec.setWidth_eq]
      · apply BitVec.eq_of_toNat_eq
        rw [BitVec.toNat_ofNat, hmantissa]
        omega

/-- Packing inverts unpacking, except for a nan that is not the one that `Float` knows. -/
theorem pack_unpack (h : Format.binary64.Valid b) : pack Format.binary64 (unpack Format.binary64 b) = b := by
  have hparts := packComponents_parts b
  simp only [unpack]
  split
  · next hmax =>
    split
    · next hzero =>
      rw [hmax, hzero] at hparts
      exact hparts
    · next hnonzero => exact (h.eq_packedNaN hmax hnonzero).symm
  · next hmax =>
    split
    · next hexponent =>
      split
      · next hzero =>
        rw [hexponent, hzero] at hparts
        exact hparts
      · next hnonzero =>
        simp only [hexponent] at hparts ⊢
        exact (pack_subnormal _).trans hparts
    · exact (pack_normal hmax _).trans hparts

/-- A word is read as nan, or packing inverts unpacking. -/
theorem unpack_eq_notANumber_or_valid (b : BitVec Format.binary64.numBits) :
    unpack Format.binary64 b = .notANumber ∨ Format.binary64.Valid b := by
  by_cases hnan : @unpackExponent Format.binary64 b = -1#11 ∧ @unpackMantissa Format.binary64 b ≠ 0#52
  · exact .inl (by simp only [unpack, if_pos hnan.1, if_neg hnan.2])
  · exact .inr ⟨fun hmax hnonzero => absurd ⟨hmax, hnonzero⟩ hnan⟩

/-- What is read from a word does not change when it is packed. -/
theorem unpack_pack_unpack (b : BitVec Format.binary64.numBits) :
    unpack Format.binary64 (pack Format.binary64 (unpack Format.binary64 b)) = unpack Format.binary64 b := by
  rcases unpack_eq_notANumber_or_valid b with hnan | hvalid
  · rw [hnan]
    rfl
  · rw [pack_unpack hvalid]

/-- Flipping the sign bit of a word negates what is read from it. -/
theorem unpack_flip (b : BitVec Format.binary64.numBits) :
    unpack Format.binary64 (b ^^^ 0x8000000000000000#64) = (unpack Format.binary64 b).neg := by
  have hmantissa : @unpackMantissa Format.binary64 (b ^^^ 0x8000000000000000#64) = unpackMantissa b := by
    change (b ^^^ 0x8000000000000000#64).extractLsb' 0 52 = b.extractLsb' 0 52
    rw [BitVec.extractLsb'_xor]
    exact BitVec.xor_zero
  have hexponent : @unpackExponent Format.binary64 (b ^^^ 0x8000000000000000#64) = unpackExponent b := by
    change (b ^^^ 0x8000000000000000#64).extractLsb' 52 11 = b.extractLsb' 52 11
    rw [BitVec.extractLsb'_xor]
    exact BitVec.xor_zero
  have hsign : Sign.ofBitVec (@unpackSign Format.binary64 (b ^^^ 0x8000000000000000#64)) =
      -Sign.ofBitVec (unpackSign b) := by
    have hflip (s : BitVec 1) : Sign.ofBitVec (s ^^^ 1#1) = -Sign.ofBitVec s := by
      rcases BitVec.eq_zero_or_eq_one s with rfl | rfl <;> rfl
    rw [← hflip]
    congr 1
    change (b ^^^ 0x8000000000000000#64).extractLsb' 63 1 = b.extractLsb' 63 1 ^^^ 1#1
    rw [BitVec.extractLsb'_xor]
    rfl
  simp only [unpack, hmantissa, hexponent, hsign]
  split
  · split <;> rfl
  · split
    · split <;> rfl
    · rfl

end

namespace Double

/-- No float is lost when it is stored. -/
theorem toFloat_ofFloat (x : Float) : (ofFloat x).toFloat = x := by
  obtain ⟨⟨bits, hvalid⟩⟩ := x
  have hpack : (⟨pack Format.binary64 (unpack Format.binary64 bits.toBitVec)⟩ : UInt64) = bits := by
    rw [pack_unpack hvalid]
  change Float.ofModel ⟨_, _⟩ = Float.ofModel ⟨_, _⟩
  congr 2

/-- A stored float that is no nan is determined by its number. -/
theorem ofFloat_toFloat {x : Double} (h : x.isNaN = false) : ofFloat x.toFloat = x := by
  obtain ⟨bits⟩ := x
  change (unpack Format.binary64 (pack Format.binary64 (unpack Format.binary64 bits.toBitVec))).isNaN = false at h
  change Double.mk ⟨pack Format.binary64 (unpack Format.binary64 bits.toBitVec)⟩ = ⟨bits⟩
  rw [unpack_pack_unpack] at h
  rcases unpack_eq_notANumber_or_valid bits.toBitVec with hnan | hvalid
  · rw [hnan] at h
    cases h
  · rw [pack_unpack hvalid]

/-- Flipping the sign bit is the negation of numbers. -/
theorem toFloat_neg (x : Double) : (-x).toFloat = -x.toFloat := by
  obtain ⟨bits⟩ := x
  have hunpack := unpack_flip bits.toBitVec
  change Float.ofModel (.pack (unpack Format.binary64 (bits.toBitVec ^^^ 0x8000000000000000#64))) =
    Float.ofModel (.pack (unpack Format.binary64 (pack Format.binary64 (unpack Format.binary64 bits.toBitVec))).neg)
  rw [unpack_pack_unpack]
  exact congrArg (fun u => Float.ofModel (.pack u)) hunpack

end Double

/-- Numbers are compared as the floats that they are computed with. -/
theorem Number.toFloat_toDouble (a : Number) : a.toDouble.toFloat = a.toFloat := by
  cases a with
  | int n => exact Double.toFloat_ofFloat _
  | float x => rfl

end Millrace
