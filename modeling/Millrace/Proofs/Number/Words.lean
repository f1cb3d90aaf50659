import Mathlib.Data.Rat.Floor
import Millrace.Lambda.Call
import Millrace.Proofs.Results

/-!
# Integer operators on words

A machine computes with words of 64 bits: it divides towards zero and corrects the quotient and the remainder
afterwards, and a power whose base is larger than one has to have a short exponent.  Here every step is taken on its own,
and a step whose exact result is no word, where a machine would wrap or abort, has none.  No operator ever gets to such
a step (`stepwise_eq`), and what it gives is the exact integer, or the fault that says why there is none
(`integers_exact`).
-/

namespace Millrace

/-! ### Steps -/

namespace Word

/-- The sum, if it is a word. -/
def add? (a b : Int64) : Option Int64 := Whole.ofInt? (a.toInt + b.toInt)

/-- The difference, if it is a word. -/
def sub? (a b : Int64) : Option Int64 := Whole.ofInt? (a.toInt - b.toInt)

/-- The product, if it is a word. -/
def mul? (a b : Int64) : Option Int64 := Whole.ofInt? (a.toInt * b.toInt)

/-- The quotient rounded towards zero, if there is one and it is a word. -/
def div? (a b : Int64) : Option Int64 := if b = 0 then none else Whole.ofInt? (a.toInt.tdiv b.toInt)

/-- The remainder with the sign of the dividend.  It is computed with the quotient, so it needs that to be a word. -/
def rem? (a b : Int64) : Option Int64 := (div? a b).bind fun _ => Whole.ofInt? (a.toInt.tmod b.toInt)

/-- The power, if it is a word. -/
def pow? (a : Int64) (n : Nat) : Option Int64 := Whole.ofInt? (a.toInt ^ n)

/-- The result of a step that may overflow. -/
def orOverflow : Option Int64 → RowResult Int64
  | some m => .ok m
  | none => fault .integerOverflow

/-- Whether a remainder is on the wrong side of zero. -/
def needsCorrection (r a b : Int64) : Bool := r != 0 && (decide (a < 0) != decide (b < 0))

/-- Division rounding down: the quotient is corrected where it was rounded up. -/
def floorDiv (a b : Int64) : Option (RowResult Int64) :=
  if b = 0 then some (fault .integerDivision)
  else
    match div? a b with
    | none => some (fault .integerOverflow)
    | some q => do
      let r ← rem? a b
      if needsCorrection r a b then return .ok (← sub? q 1) else return .ok q

/-- The remainder with the sign of the divisor: it is corrected where it has the other sign.  The divisor -1 is kept
apart, because it divides the least word only with a quotient that is none. -/
def mod (a b : Int64) : Option (RowResult Int64) :=
  if b = 0 then some (fault .integerDivision)
  else if b = -1 then some (.ok 0)
  else do
    let r ← rem? a b
    if needsCorrection r r b then return .ok (← add? r b) else return .ok r

/-- A power with an exponent of zero or more.  Only the bases 0, 1 and -1 have powers with an exponent of more than 32
bits. -/
def pow (a b : Int64) : Option (RowResult Int64) :=
  if b < 0 then some (fault .negativeExponent)
  else if a = 0 then some (.ok (if b = 0 then 1 else 0))
  else if a = 1 then some (.ok 1)
  else if a = -1 then do
    let r ← rem? b 2
    return .ok (if r = 0 then 1 else -1)
  else if 2 ^ 32 ≤ b.toInt then some (fault .integerOverflow)
  else some (orOverflow (pow? a b.toInt.toNat))

end Word

/-- What an operator comes to step by step.  True division gives a float. -/
def BinaryOp.stepwise (op : BinaryOp) (a b : Int64) : Option (RowResult Int64) :=
  match op with
  | add => some (Word.orOverflow (Word.add? a b))
  | sub => some (Word.orOverflow (Word.sub? a b))
  | mul => some (Word.orOverflow (Word.mul? a b))
  | div => none
  | floorDiv => Word.floorDiv a b
  | mod => Word.mod a b
  | pow => Word.pow a b

/-! ### Words among the integers -/

section
variable {n : Int} {m : Int64}

theorem ofInt?_eq_some_iff : Whole.ofInt? n = some m ↔ n = m.toInt := by
  have hlow := Int64.le_toInt m
  have hhigh := Int64.toInt_lt m
  unfold Whole.ofInt? Whole.least Whole.greatest
  constructor
  · intro h
    split at h
    · next hrange =>
      cases h
      exact (Int64.toInt_ofInt_of_le (by omega) (by omega)).symm
    · cases h
  · rintro rfl
    rw [if_pos (by omega), Int64.ofInt_toInt]

/-- An integer between the least and the greatest word is one. -/
theorem exists_word (hlow : -2 ^ 63 ≤ n) (hhigh : n < 2 ^ 63) : ∃ m : Int64, m.toInt = n :=
  ⟨Int64.ofInt n, Int64.toInt_ofInt_of_le hlow hhigh⟩

theorem checked_toInt (m : Int64) : Whole.checked m.toInt = .ok m := by
  rw [Whole.checked, ofInt?_eq_some_iff.2 rfl]

theorem toInt_of_checked (h : Whole.checked n = .ok m) : m.toInt = n := by
  unfold Whole.checked at h
  split at h
  · next hword =>
    cases h
    exact (ofInt?_eq_some_iff.1 hword).symm
  · cases h

end

/-! ### The corrections of quotient and remainder -/

section
variable {a b : Int}

theorem sign_tmod (h : a.tmod b ≠ 0) : a.tmod b < 0 ↔ a < 0 := by
  rcases lt_or_ge a 0 with ha | ha
  · have hneg := Int.tmod_nonneg b (a := -a) (by omega)
    rw [Int.neg_tmod] at hneg
    omega
  · have hpos := Int.tmod_nonneg b ha
    omega

theorem fdiv_eq_corrected (hb : b ≠ 0) :
    a.fdiv b = if a.tmod b ≠ 0 ∧ (a < 0 ↔ 0 < b) then a.tdiv b - 1 else a.tdiv b := by
  have hdvd : b ∣ a ↔ a.tmod b = 0 := Int.dvd_iff_tmod_eq_zero
  rw [Int.fdiv_eq_tdiv]
  rcases lt_or_gt_of_ne hb with hneg | hpos
  · rw [Int.sign_eq_neg_one_of_neg hneg]
    split_ifs <;> omega
  · rw [Int.sign_eq_one_of_pos hpos]
    split_ifs <;> omega

theorem fmod_eq_corrected (a b : Int) :
    a.fmod b = if a.tmod b ≠ 0 ∧ (a.tmod b < 0 ↔ 0 < b) then a.tmod b + b else a.tmod b := by
  have hsign := sign_tmod (a := a) (b := b)
  have hdvd : b ∣ a ↔ a.tmod b = 0 := Int.dvd_iff_tmod_eq_zero
  rw [Int.fmod_eq_tmod]
  split_ifs <;> omega

/-- The remainder of a division that rounds down lies between zero and the divisor. -/
theorem fmod_between (a : Int) (hb : b ≠ 0) : 0 ≤ a.fmod b ∧ a.fmod b < b ∨ b < a.fmod b ∧ a.fmod b ≤ 0 := by
  rcases lt_or_gt_of_ne hb with hneg | hpos
  · right
    have hlow := Int.fmod_nonneg_of_pos (-a) (b := -b) (by omega)
    have hhigh := Int.fmod_lt_of_pos (-a) (b := -b) (by omega)
    rw [Int.neg_fmod_neg] at hlow hhigh
    omega
  · exact .inl ⟨Int.fmod_nonneg_of_pos a hpos, Int.fmod_lt_of_pos a hpos⟩

end

/-! ### Division, step by step -/

theorem eq_zero_iff {a : Int64} : a = 0 ↔ a.toInt = 0 := Int64.toInt_inj.symm

namespace Word
section
variable {a b q : Int64}

theorem div?_eq_some_iff : div? a b = some q ↔ b.toInt ≠ 0 ∧ a.toInt.tdiv b.toInt = q.toInt := by
  unfold div?
  split
  · next hb => simp [hb]
  · next hb => rw [ofInt?_eq_some_iff, ne_eq, ← eq_zero_iff, and_iff_right hb]

/-- Only the divisor -1 gives a quotient that is no word. -/
theorem exists_div? (hb : b.toInt ≠ 0) (hne : b.toInt ≠ -1) : ∃ q, div? a b = some q := by
  have hlow := Int64.le_toInt a
  have hhigh := Int64.toInt_lt a
  suffices hrange : -2 ^ 63 ≤ a.toInt.tdiv b.toInt ∧ a.toInt.tdiv b.toInt < 2 ^ 63 by
    obtain ⟨q, hq⟩ := exists_word hrange.1 hrange.2
    exact ⟨q, div?_eq_some_iff.2 ⟨hb, hq.symm⟩⟩
  rcases eq_or_ne b.toInt 1 with hone | hone
  · rw [hone, Int.tdiv_one]
    exact ⟨hlow, hhigh⟩
  · have hhalf : (a.toInt.tdiv b.toInt).natAbs ≤ a.toInt.natAbs / 2 := by
      rw [Int.natAbs_tdiv]
      exact Nat.div_le_div_left (by omega) (by decide)
    omega

theorem exists_rem? (h : div? a b = some q) : ∃ r, rem? a b = some r ∧ r.toInt = a.toInt.tmod b.toInt := by
  have hlow := Int64.le_toInt b
  have hhigh := Int64.toInt_lt b
  obtain ⟨hb, -⟩ := div?_eq_some_iff.1 h
  have habs : (a.toInt.tmod b.toInt).natAbs < b.toInt.natAbs := by
    rw [Int.natAbs_tmod]
    exact Nat.mod_lt _ (by omega)
  obtain ⟨r, hr⟩ := exists_word (n := a.toInt.tmod b.toInt) (by omega) (by omega)
  refine ⟨r, ?_, hr⟩
  rw [rem?, h, Option.bind_some, ofInt?_eq_some_iff, hr]

theorem needsCorrection_iff {r : Int64} (hb : b.toInt ≠ 0) :
    needsCorrection r a b = true ↔ r.toInt ≠ 0 ∧ (a.toInt < 0 ↔ 0 < b.toInt) := by
  have ha : a < 0 ↔ a.toInt < 0 := Int64.lt_iff_toInt_lt
  have hneg : b < 0 ↔ b.toInt < 0 := Int64.lt_iff_toInt_lt
  rw [needsCorrection, Bool.and_eq_true, bne_iff_ne, bne_iff_ne, ne_eq, ne_eq, eq_zero_iff, decide_eq_decide, ha,
    hneg]
  omega

/-- The corrected quotient is a word where the one before was. -/
theorem floorDiv_eq (a b : Int64) : floorDiv a b = some (Whole.floorDiv a b) := by
  have hlow := Int64.le_toInt a
  have hhigh := Int64.toInt_lt a
  rw [floorDiv, Whole.floorDiv]
  split_ifs with hzero
  · rfl
  have hb : b.toInt ≠ 0 := mt eq_zero_iff.2 hzero
  have hfdiv := fdiv_eq_corrected (a := a.toInt) hb
  cases hq : div? a b with
  | none =>
    -- the divisor is -1: there is nothing to correct, and the quotient is no word
    have hne : b.toInt = -1 := by
      by_contra hne
      obtain ⟨q, hq'⟩ := exists_div? (a := a) hb hne
      rw [hq] at hq'
      cases hq'
    have hrem : a.toInt.tmod b.toInt = 0 := by rw [hne, Int.tmod_neg, Int.tmod_one]
    rw [if_neg fun h => h.1 hrem] at hfdiv
    rw [hfdiv, Whole.checked]
    rw [div?, if_neg hzero] at hq
    rw [hq]
  | some q =>
    obtain ⟨r, hrem, hr⟩ := exists_rem? hq
    obtain ⟨-, hdiv⟩ := div?_eq_some_iff.1 hq
    rw [← hr, hdiv] at hfdiv
    dsimp only
    rw [hrem, Option.bind_eq_bind, Option.bind_some]
    split
    · next hc =>
      rw [if_pos ((needsCorrection_iff hb).1 hc)] at hfdiv
      have habs := Int.natAbs_fdiv_le_natAbs a.toInt b.toInt
      have hq' := Int64.toInt_lt q
      obtain ⟨m, hm⟩ := exists_word (n := a.toInt.fdiv b.toInt) (by omega) (by omega)
      have hsub : sub? q 1 = some m := ofInt?_eq_some_iff.2 (by rw [hm, hfdiv]; rfl)
      rw [hsub, ← hm, checked_toInt]
      rfl
    · next hc =>
      rw [if_neg (mt (needsCorrection_iff hb).2 hc)] at hfdiv
      rw [hfdiv, checked_toInt]
      rfl

/-- The divisor and a remainder of the other sign have a sum between them. -/
theorem mod_eq (a b : Int64) : mod a b = some (Whole.mod a b) := by
  have hlow := Int64.le_toInt b
  have hhigh := Int64.toInt_lt b
  rw [mod, Whole.mod]
  split_ifs with hzero hone
  · rfl
  · subst hone
    have hfmod : a.toInt.fmod (-1 : Int64).toInt = (0 : Int64).toInt := by
      change a.toInt.fmod (-1) = 0
      rw [fmod_eq_corrected, Int.tmod_neg, Int.tmod_one]
      rfl
    rw [hfmod, checked_toInt]
  have hb : b.toInt ≠ 0 := mt eq_zero_iff.2 hzero
  obtain ⟨q, hq⟩ := exists_div? (a := a) hb fun h => hone (Int64.toInt_inj.1 h)
  obtain ⟨r, hrem, hr⟩ := exists_rem? hq
  have hfmod := fmod_eq_corrected a.toInt b.toInt
  rw [← hr] at hfmod
  rw [hrem, Option.bind_eq_bind, Option.bind_some]
  split
  · next hc =>
    rw [if_pos ((needsCorrection_iff hb).1 hc)] at hfmod
    have hbetween := fmod_between a.toInt hb
    obtain ⟨m, hm⟩ := exists_word (n := a.toInt.fmod b.toInt) (by omega) (by omega)
    have hadd : add? r b = some m := ofInt?_eq_some_iff.2 (by rw [hm, hfmod])
    rw [hadd, ← hm, checked_toInt]
    rfl
  · next hc =>
    rw [if_neg (mt (needsCorrection_iff hb).2 hc)] at hfmod
    rw [hfmod, checked_toInt]
    rfl

end
end Word

/-! ### Powers -/

/-- A base beyond ±1 has no power with an exponent of 64 or more that is a word. -/
theorem pow_outOfRange {a : Int} {n : Nat} (ha : 2 ≤ a.natAbs) (hn : 64 ≤ n) : Whole.ofInt? (a ^ n) = none := by
  have hpow : 2 ^ 64 ≤ (a ^ n).natAbs := by
    rw [Int.natAbs_pow]
    calc 2 ^ 64 ≤ 2 ^ n := Nat.pow_le_pow_right (by decide) hn
      _ ≤ a.natAbs ^ n := Nat.pow_le_pow_left ha n
  rw [Whole.ofInt?, Whole.least, Whole.greatest, if_neg (by omega)]

theorem powNat_eq (a : Int) (n : Nat) : Whole.powNat a n = Whole.checked (a ^ n) := by
  unfold Whole.powNat
  split
  · next habs =>
    congr 1
    split
    · next hn => rw [hn, pow_zero]
    · next hn =>
      obtain rfl | rfl | rfl : a = 0 ∨ a = 1 ∨ a = -1 := by omega
      · simp [hn]
      · simp
      · split
        · next heven => rw [(Nat.even_iff.2 heven).neg_one_pow, Int.neg_mul_neg, Int.one_mul]
        · next hodd => rw [(Nat.not_even_iff_odd.1 (mt Nat.even_iff.1 hodd)).neg_one_pow]
  · next habs =>
    split
    · next hn => rw [Whole.checked, pow_outOfRange (by omega) hn]
    · rfl

namespace Word

theorem pow_eq (a b : Int64) : pow a b = some (Whole.pow a b) := by
  unfold pow Whole.pow
  split
  · rfl
  next hneg =>
  have hb : 0 ≤ b.toInt := not_lt.1 fun h => hneg (Int64.lt_iff_toInt_lt.2 h)
  rw [powNat_eq]
  split_ifs with ha hb0 hone hminus hlong
  · subst ha hb0
    rfl
  · have hpos : b.toInt.toNat ≠ 0 := by
      have hne := mt eq_zero_iff.2 hb0
      omega
    rw [eq_zero_iff.1 ha, zero_pow hpos]
    rfl
  · rw [hone, Int64.toInt_one, one_pow]
    rfl
  · obtain ⟨q, hq⟩ := exists_div? (a := b) (b := 2) (by decide) (by decide)
    obtain ⟨r, hrem, hr⟩ := exists_rem? hq
    have hparity : r = 0 ↔ Even b.toInt.toNat := by
      rw [eq_zero_iff, hr, ← Int.dvd_iff_tmod_eq_zero, even_iff_two_dvd]
      change (2 : Int) ∣ _ ↔ _
      omega
    have hpow : a.toInt ^ b.toInt.toNat = (if r = 0 then 1 else -1 : Int64).toInt := by
      rw [hminus]
      split_ifs with h
      · exact (hparity.1 h).neg_one_pow
      · exact (Nat.not_even_iff_odd.1 (mt hparity.2 h)).neg_one_pow
    rw [hrem, hpow, checked_toInt]
    rfl
  · have habs : 2 ≤ a.toInt.natAbs := by
      have hzero := mt eq_zero_iff.2 ha
      have hone' : a.toInt ≠ 1 := fun h => hone (Int64.toInt_inj.1 h)
      have hminus' : a.toInt ≠ -1 := fun h => hminus (Int64.toInt_inj.1 h)
      omega
    rw [Whole.checked, pow_outOfRange habs (by omega)]
  · rfl

end Word

/-! ### Exact results -/

/-- The integer that an operator stands for.  There is none for a division by zero, nor, for want of a fraction, for a
true division or a negative exponent. -/
def BinaryOp.integer? (op : BinaryOp) (a b : Int) : Option Int :=
  match op with
  | add => some (a + b)
  | sub => some (a - b)
  | mul => some (a * b)
  | div => none
  | floorDiv => if b = 0 then none else some ⌊(a : ℚ) / b⌋
  | mod => if b = 0 then none else some (a - b * ⌊(a : ℚ) / b⌋)
  | pow => if b < 0 then none else some (a ^ b.toNat)

/-- A result is exact if it is the integer wherever there is one that is a word, and its fault tells which of the two
is wanting where it fails. -/
structure IsExact (exact : Option Int) (r : RowResult Int64) : Prop where
  succeeds : ∀ n : Int, Int64.toInt <$> r = .ok n ↔ exact = some n ∧ -2 ^ 63 ≤ n ∧ n < 2 ^ 63
  undefined : r = fault .integerDivision ↔ exact = none
  overflows : r = fault .integerOverflow ↔ ∃ n, exact = some n ∧ ¬(-2 ^ 63 ≤ n ∧ n < 2 ^ 63)

theorem isExact_none : IsExact none (fault .integerDivision) where
  succeeds n := by simp [fault]
  undefined := by simp
  overflows := by simp [fault]

theorem isExact_checked (n : Int) : IsExact (some n) (Whole.checked n) := by
  by_cases hrange : -2 ^ 63 ≤ n ∧ n < 2 ^ 63
  · obtain ⟨m, rfl⟩ := exists_word hrange.1 hrange.2
    rw [checked_toInt]
    refine ⟨fun n => ?_, by simp [fault], by simpa [fault] using hrange⟩
    rw [Except.map_ok, Except.ok.injEq, Option.some.injEq, iff_self_and]
    rintro rfl
    exact hrange
  · have hnone : Whole.checked n = fault .integerOverflow := by
      rw [Whole.checked, Whole.ofInt?, Whole.least, Whole.greatest, if_neg (by omega)]
    rw [hnone]
    refine ⟨fun m => ?_, by simp [fault], by simpa using hrange⟩
    constructor
    · rintro ⟨⟩
    · rintro ⟨h, hm⟩
      cases h
      exact absurd hm hrange

theorem IsExact.zeroDivision_iff {exact : Option Int} {r : RowResult Int64} (h : IsExact exact r) :
    (∃ e, r = .error e ∧ e.kind = .zeroDivision) ↔ exact = none := by
  rw [← h.undefined]
  constructor
  · rintro ⟨e, rfl, hkind⟩
    cases exact with
    | none => exact h.undefined.2 rfl
    | some n =>
      by_cases hrange : -2 ^ 63 ≤ n ∧ n < 2 ^ 63
      · have hok := (h.succeeds n).2 ⟨rfl, hrange⟩
        cases hok
      · have hover := h.overflows.2 ⟨n, rfl, hrange⟩
        cases hover
        cases hkind
  · intro hr
    exact ⟨_, hr, rfl⟩

theorem fdiv_eq_floor (a : Int) {b : Int} (hb : b ≠ 0) : a.fdiv b = ⌊(a : ℚ) / b⌋ := by
  have hpos : ∀ a b : Int, 0 < b → a.fdiv b = ⌊(a : ℚ) / b⌋ := by
    intro a b h
    lift b to Nat using h.le
    rw [Int.cast_natCast, Rat.floor_intCast_div_natCast, Int.fdiv_eq_ediv_of_nonneg a h.le]
  rcases lt_or_gt_of_ne hb with hneg | h
  · rw [← Int.neg_fdiv_neg, hpos _ _ (by omega), Int.cast_neg, Int.cast_neg, neg_div_neg_eq]
  · exact hpos a b h

theorem BinaryOp.integer?_eq_none_iff {op : BinaryOp} {a b : Int} (hdiv : op ≠ .div) (hpow : op = .pow → 0 ≤ b) :
    op.integer? a b = none ↔ (op = .floorDiv ∨ op = .mod) ∧ b = 0 := by
  cases op with
  | div => exact absurd rfl hdiv
  | pow => simp [integer?, hpow rfl]
  | _ => simp [integer?]

section
variable (a b : Int64)

theorem isExact_floorDiv : IsExact (BinaryOp.floorDiv.integer? a.toInt b.toInt) (Whole.floorDiv a b) := by
  unfold BinaryOp.integer? Whole.floorDiv
  simp only [eq_zero_iff]
  split
  · exact isExact_none
  · next hb =>
    rw [fdiv_eq_floor _ hb]
    exact isExact_checked _

theorem isExact_mod : IsExact (BinaryOp.mod.integer? a.toInt b.toInt) (Whole.mod a b) := by
  unfold BinaryOp.integer? Whole.mod
  simp only [eq_zero_iff]
  split
  · exact isExact_none
  · next hb =>
    rw [Int.fmod_def, fdiv_eq_floor _ hb]
    exact isExact_checked _

theorem isExact_pow (hb : 0 ≤ b.toInt) : IsExact (BinaryOp.pow.integer? a.toInt b.toInt) (Whole.pow a b) := by
  have hnonneg : ¬b < 0 := fun h => not_lt.2 hb (Int64.lt_iff_toInt_lt.1 h)
  unfold BinaryOp.integer? Whole.pow
  rw [if_neg (not_lt.2 hb), if_neg hnonneg, powNat_eq]
  exact isExact_checked _

/-- The steps of an operator lead to what it gives. -/
theorem BinaryOp.stepwise_eq {op : BinaryOp} (hdiv : op ≠ .div) (hpow : op = .pow → 0 ≤ b) :
    ∃ r, op.stepwise a b = some r ∧ op.apply (.int a) (.int b) = Value.int <$> r ∧
      IsExact (op.integer? a.toInt b.toInt) r := by
  cases op with
  | add => exact ⟨_, rfl, rfl, isExact_checked _⟩
  | sub => exact ⟨_, rfl, rfl, isExact_checked _⟩
  | mul => exact ⟨_, rfl, rfl, isExact_checked _⟩
  | div => exact absurd rfl hdiv
  | floorDiv => exact ⟨_, Word.floorDiv_eq a b, rfl, isExact_floorDiv a b⟩
  | mod => exact ⟨_, Word.mod_eq a b, rfl, isExact_mod a b⟩
  | pow =>
    exact ⟨_, Word.pow_eq a b, if_pos (hpow rfl), isExact_pow a b (Int64.le_iff_toInt_le.1 (hpow rfl))⟩

/-- The quotient and the remainder belong together. -/
theorem division_law {q r : Int64} (hq : Whole.floorDiv a b = .ok q) (hr : Whole.mod a b = .ok r) :
    a.toInt = q.toInt * b.toInt + r.toInt ∧ |r.toInt| < |b.toInt| ∧ (r = 0 ∨ r.toInt.sign = b.toInt.sign) := by
  unfold Whole.floorDiv at hq
  unfold Whole.mod at hr
  split at hq
  · cases hq
  next hzero =>
  have hb := mt eq_zero_iff.2 hzero
  rw [if_neg hzero] at hr
  rw [eq_zero_iff, toInt_of_checked hq, toInt_of_checked hr]
  refine ⟨(Int.fdiv_mul_add_fmod _ _).symm, ?_, ?_⟩
  · rcases fmod_between a.toInt hb with ⟨hlow, hhigh⟩ | ⟨hlow, hhigh⟩
    · rwa [abs_of_nonneg hlow, abs_of_pos (by omega)]
    · rw [abs_of_nonpos hhigh, abs_of_neg (by omega)]
      omega
  · rw [or_iff_not_imp_left]
    intro hne
    rcases fmod_between a.toInt hb with ⟨hlow, hhigh⟩ | ⟨hlow, hhigh⟩
    · rw [Int.sign_eq_one_of_pos (by omega), Int.sign_eq_one_of_pos (by omega)]
    · rw [Int.sign_eq_neg_one_of_neg (by omega), Int.sign_eq_neg_one_of_neg (by omega)]

/-- The integer operators give the exact integer or say what is wrong with it, and no step on the way there leaves the
words; negation and the magnitude are one step each.  The quotient and the remainder belong together. -/
theorem integers_exact :
    (∀ op : BinaryOp, op ≠ .div → (op = .pow → 0 ≤ b) →
      ∃ r, op.stepwise a b = some r ∧ op.apply (.int a) (.int b) = Value.int <$> r ∧
        IsExact (op.integer? a.toInt b.toInt) r ∧
        ((∃ e, r = .error e ∧ e.kind = .zeroDivision) ↔ (op = .floorDiv ∨ op = .mod) ∧ b = 0)) ∧
      (∃ r, UnaryOp.neg.apply (.int a) = Value.int <$> r ∧ IsExact (some (-a.toInt)) r) ∧
      (∃ r, (Value.int a).abs = Value.int <$> r ∧ IsExact (some |a.toInt|) r) ∧
      ∀ q r, BinaryOp.floorDiv.apply (.int a) (.int b) = .ok (.int q) →
        BinaryOp.mod.apply (.int a) (.int b) = .ok (.int r) →
        a.toInt = q.toInt * b.toInt + r.toInt ∧ |r.toInt| < |b.toInt| ∧ (r = 0 ∨ r.toInt.sign = b.toInt.sign) := by
  refine ⟨fun op hdiv hpow => ?_, ⟨_, rfl, isExact_checked _⟩, ⟨_, rfl, ?_⟩, fun q r hq hr => ?_⟩
  · obtain ⟨r, hsteps, happly, hexact⟩ := BinaryOp.stepwise_eq a b hdiv hpow
    refine ⟨r, hsteps, happly, hexact, ?_⟩
    rw [hexact.zeroDivision_iff, eq_zero_iff]
    exact BinaryOp.integer?_eq_none_iff hdiv fun h => Int64.le_iff_toInt_le.1 (hpow h)
  · rw [Int.abs_eq_natAbs]
    exact isExact_checked _
  · obtain ⟨q', hq', hcq⟩ := map_eq_ok (f := Value.int) (x := Whole.floorDiv a b) hq
    obtain ⟨r', hr', hcr⟩ := map_eq_ok (f := Value.int) (x := Whole.mod a b) hr
    cases hcq
    cases hcr
    exact division_law a b hq' hr'

end

/-- A third of the least word is rounded down with a correction; its third power is beyond the words. -/
theorem integers_exact_least_three :
    (∃ r, BinaryOp.floorDiv.stepwise Int64.minValue 3 = some r ∧
      Int64.toInt <$> r = .ok (-3074457345618258603)) ∧
      (∃ r, BinaryOp.pow.stepwise Int64.minValue 3 = some r ∧ r = fault .integerOverflow) ∧
      Int64.minValue.toInt = -3074457345618258603 * 3 + 1 := by
  obtain ⟨hexact, -, -, hlaw⟩ := integers_exact Int64.minValue 3
  obtain ⟨q, hq, -, hthird, -⟩ := hexact .floorDiv (by decide) (by decide)
  obtain ⟨p, hp, -, hcube, -⟩ := hexact .pow (by decide) (by decide)
  have hfloor : BinaryOp.floorDiv.integer? Int64.minValue.toInt 3 = some (-3074457345618258603) := by decide +kernel
  have hpow : BinaryOp.pow.integer? Int64.minValue.toInt 3 = some (Int64.minValue.toInt ^ 3) := by decide +kernel
  have hlawful := hlaw (-3074457345618258603) 1 rfl rfl
  refine ⟨⟨q, hq, (hthird.succeeds _).2 ⟨hfloor, by decide, by decide⟩⟩, ⟨p, hp, hcube.overflows.2 ?_⟩, hlawful.1⟩
  exact ⟨_, hpow, by decide⟩

end Millrace
