import Mathlib.Data.List.DropRight
import Millrace.Number.Numeral
import Millrace.Proofs.Number.Significant

/-!
# Decimals as texts

The number that a text denotes is read by the rules of numerals, but kept as it is instead of being rounded to a float
(`Numeral.rational?`).  A decimal that is written in some layout denotes its own number, wherever the point is put and
however the exponent is written.  Trailing zeros may be dropped, and then a fraction never ends in a zero.

## Main statements

* `magnitude?_write`: reading a written decimal.
* `value_trim`, `positionalParts_trim`: dropping trailing zeros.
-/

namespace Millrace

/-- Digits before and after a point, together with an exponent, stand for the number `q`. -/
structure StandsFor (whole fraction : List ℕ) (exponent : ℤ) (q : ℚ) : Prop where
  nonempty : whole ≠ []
  whole_lt : ∀ d ∈ whole, d < 10
  fraction_lt : ∀ d ∈ fraction, d < 10
  value : Digits.toNat (whole ++ fraction) * (10 : ℚ) ^ (exponent - fraction.length) = q

theorem Decimal.zeros_lt {k : ℕ} : ∀ d ∈ zeros k, d < 10 := by
  intro d hd
  rw [List.eq_of_mem_replicate hd]
  decide

namespace Numeral

/-- The number that an unsigned decimal denotes. -/
def magnitude? (cs : List Char) : Option ℚ := do
  let (whole, fraction, rest) ← mantissa? cs
  let value (exponent : ℤ) : ℚ := Digits.value (whole ++ fraction) * 10 ^ (exponent - fraction.length)
  match rest with
  | [] => some (value 0)
  | e :: more => if e = 'e' || e = 'E' then (exponent? more).map value else none

/-- The number that a text denotes. -/
def rational? (s : String) : Option ℚ :=
  let (negative, rest) := sign s.toList
  (magnitude? rest).map (signed negative)

/-! ### Digits, signs and exponents -/

section
variable {ds whole fraction : List ℕ} {rest : List Char} {e : ℤ} {q : ℚ}

/-- Digits stop at the first other character. -/
theorem digits_chars (hds : ∀ d ∈ ds, d < 10) (hrest : ∀ c ∈ rest.head?, c.isDigit = false) :
    digits (Digits.chars ds ++ rest) = (Digits.chars ds, rest) := by
  have hall : ∀ c ∈ Digits.chars ds, c.isDigit = true := fun c hc => Digits.isDigit_of_mem_chars hds hc
  rw [digits, List.span_eq_takeWhile_dropWhile, List.takeWhile_append_of_pos hall, List.dropWhile_append_of_pos hall]
  cases rest with
  | nil => rw [List.takeWhile_nil, List.append_nil, List.dropWhile_nil]
  | cons c rest =>
    have hc : ¬ c.isDigit = true := by simp [hrest c rfl]
    rw [List.takeWhile_cons_of_neg hc, List.append_nil, List.dropWhile_cons_of_neg hc]

/-- A text that starts with a digit has no sign. -/
theorem sign_chars (hne : ds ≠ []) (hds : ∀ d ∈ ds, d < 10) (rest : List Char) :
    sign (Digits.chars ds ++ rest) = (false, Digits.chars ds ++ rest) := by
  obtain ⟨d, ds, rfl⟩ := List.exists_cons_of_ne_nil hne
  have hdigit := Digits.isDigit_digitChar d (hds d (List.mem_cons_self ..))
  rw [Digits.chars, List.map_cons, List.cons_append]
  unfold sign
  split
  · next h => exact absurd hdigit (by rw [(List.cons.inj h).1]; decide)
  · next h => exact absurd hdigit (by rw [(List.cons.inj h).1]; decide)
  · rfl

theorem toList_pointed (whole fraction : List ℕ) : (Decimal.pointed whole fraction).toList =
    Digits.chars whole ++ if fraction = [] then [] else '.' :: Digits.chars fraction := by
  rw [Decimal.pointed]
  by_cases h : fraction = [] <;> simp [h]

theorem mantissa?_pointed (h : StandsFor whole fraction e q)
    (hrest : ∀ c ∈ rest.head?, c.isDigit = false ∧ c ≠ '.') :
    mantissa? ((Decimal.pointed whole fraction).toList ++ rest) =
      some (Digits.chars whole, Digits.chars fraction, rest) := by
  have hchars : (Digits.chars whole).isEmpty = false := by simpa [Digits.chars] using h.nonempty
  have hstop : ∀ c ∈ rest.head?, c.isDigit = false := fun c hc => (hrest c hc).1
  have hnil : Digits.chars [] = [] := rfl
  rw [toList_pointed, mantissa?]
  by_cases hempty : fraction = []
  · rw [if_pos hempty, List.append_nil, digits_chars h.whole_lt hstop, hempty]
    cases rest with
    | nil => simp [hchars, hnil]
    | cons c rest =>
      have hc := (hrest c rfl).2
      simp [hchars, hnil, hc]
  · rw [if_neg hempty, List.append_assoc, List.cons_append, digits_chars h.whole_lt (by simp)]
    simp only [digits_chars h.fraction_lt hstop, hchars, Bool.false_and, Bool.false_eq_true, if_false]

theorem exponent?_digits {cs : List Char} {negative : Bool} (hne : ds ≠ []) (hds : ∀ d ∈ ds, d < 10)
    (hsign : sign cs = (negative, Digits.chars ds)) :
    exponent? cs = some (signedValue negative (Digits.chars ds)) := by
  have hdigits : digits (Digits.chars ds ++ []) = (Digits.chars ds, []) := digits_chars hds (by simp)
  have hchars : Digits.chars ds ≠ [] := by simpa [Digits.chars] using hne
  rw [List.append_nil] at hdigits
  rw [exponent?, hsign]
  dsimp only
  rw [hdigits]
  split
  · next hnil => exact absurd (Prod.mk.inj hnil).1 hchars
  · next hall => rw [(Prod.mk.inj hall).1]
  · next hother => exact (hother _ rfl).elim

/-- The exponent of a written decimal. -/
theorem exponent?_written (plus : Bool) (k : ℕ) (e : ℤ) :
    exponent? ((if e < 0 then "-" else if plus then "+" else "").toList ++
      Digits.chars (Decimal.zeros k ++ Digits.ofNat e.natAbs)) = some e := by
  have hds : ∀ d ∈ Decimal.zeros k ++ Digits.ofNat e.natAbs, d < 10 := fun d hd =>
    (List.mem_append.1 hd).elim (Decimal.zeros_lt d) Digits.lt_ten_of_mem_ofNat
  have hne : Decimal.zeros k ++ Digits.ofNat e.natAbs ≠ [] := by simp [Digits.ofNat_ne_nil]
  have hvalue : Digits.value (Digits.chars (Decimal.zeros k ++ Digits.ofNat e.natAbs)) = e.natAbs := by
    rw [Digits.value_chars hds, Decimal.zeros, Digits.toNat_zeros_append, Digits.toNat_ofNat]
  generalize Decimal.zeros k ++ Digits.ofNat e.natAbs = ds at hds hne hvalue ⊢
  have hunsigned := sign_chars hne hds []
  rw [List.append_nil] at hunsigned
  by_cases hneg : e < 0
  · rw [if_pos hneg, exponent?_digits hne hds rfl, signedValue, if_pos rfl, hvalue]
    congr 1
    omega
  · have hsign : sign ((if plus then "+" else "").toList ++ Digits.chars ds) = (false, Digits.chars ds) := by
      cases plus with
      | false => exact hunsigned
      | true => rfl
    rw [if_neg hneg, exponent?_digits hne hds hsign, signedValue, if_neg Bool.false_ne_true, hvalue]
    congr 1
    omega

/-! ### Numbers -/

theorem value_parts (h : StandsFor whole fraction e q) :
    (Digits.value (Digits.chars whole ++ Digits.chars fraction) : ℚ) * 10 ^ (e - (Digits.chars fraction).length) =
      q := by
  have hds : ∀ d ∈ whole ++ fraction, d < 10 := fun d hd =>
    (List.mem_append.1 hd).elim (h.whole_lt d) (h.fraction_lt d)
  rw [← h.value, ← Digits.value_chars hds, Digits.chars, Digits.chars, ← List.map_append, List.length_map, Digits.chars]

theorem magnitude?_pointed (h : StandsFor whole fraction 0 q) :
    magnitude? (Decimal.pointed whole fraction).toList = some q := by
  have hmantissa : mantissa? ((Decimal.pointed whole fraction).toList ++ []) = _ :=
    mantissa?_pointed h (by simp)
  rw [List.append_nil] at hmantissa
  rw [magnitude?, hmantissa, ← value_parts h]
  rfl

theorem magnitude?_exponent {more : List Char} (h : StandsFor whole fraction e q) (hmore : exponent? more = some e) :
    magnitude? ((Decimal.pointed whole fraction).toList ++ 'e' :: more) = some q := by
  rw [magnitude?, mantissa?_pointed h (by simp), ← value_parts h]
  simp only [Option.bind_eq_bind, Option.bind_some, decide_true, Bool.true_or, if_true, hmore, Option.map_some]

end
end Numeral

/-! ### Written decimals -/

namespace Decimal

variable {d : Decimal}

theorem positionalParts_spec (h : d.IsNormal) :
    StandsFor d.positionalParts.1 d.positionalParts.2 0 d.value := by
  have hne := h.nonempty
  rw [positionalParts]
  by_cases hneg : d.exponent < 0
  · rw [if_pos hneg]
    refine ⟨List.cons_ne_nil _ _, zeros_lt (k := 1),
      fun k hk => (List.mem_append.1 hk).elim (zeros_lt k) (h.digit k), ?_⟩
    dsimp only
    rw [show [0] = List.replicate 1 0 from rfl, zeros, Digits.toNat_zeros_append, Digits.toNat_zeros_append, value,
      List.length_append, List.length_replicate]
    congr 2
    omega
  · rw [if_neg hneg]
    refine ⟨by simp [hne],
      fun k hk => (List.mem_append.1 hk).elim (fun hk => h.digit k (List.mem_of_mem_take hk)) (zeros_lt k),
      fun k hk => h.digit k (List.mem_of_mem_drop hk), ?_⟩
    dsimp only
    rcases Nat.le_total d.digits.length (d.exponent.toNat + 1) with hle | hle
    · have hzeros : (10 : ℚ) ^ (d.exponent.toNat + 1 - d.digits.length) = 10 ^ (d.exponent + 1 - d.digits.length) := by
        rw [← zpow_natCast]
        congr 1
        omega
      rw [List.take_of_length_le hle, List.drop_of_length_le hle, List.append_nil, Digits.toNat_append, zeros,
        Digits.toNat_zeros, List.length_replicate, Nat.add_zero, value, ← hzeros]
      simp
    · rw [Nat.sub_eq_zero_of_le hle, zeros, List.replicate_zero, List.append_nil, List.take_append_drop, value,
        List.length_drop]
      congr 2
      omega

theorem scientificParts_spec (h : d.IsNormal) :
    StandsFor (d.digits.take 1) (d.digits.drop 1) d.exponent d.value := by
  have hpos := List.length_pos_of_ne_nil h.nonempty
  refine ⟨by simp [h.nonempty], fun k hk => h.digit k (List.mem_of_mem_take hk),
    fun k hk => h.digit k (List.mem_of_mem_drop hk), ?_⟩
  rw [List.take_append_drop, value, List.length_drop]
  congr 2
  omega

theorem toList_scientific (d : Decimal) (plus : Bool) (width : ℕ) : (d.scientific plus width).toList =
    (pointed (d.digits.take 1) (d.digits.drop 1)).toList ++
      'e' :: ((if d.exponent < 0 then "-" else if plus then "+" else "").toList ++
        Digits.chars (zeros (width - (Digits.ofNat d.exponent.natAbs).length) ++ Digits.ofNat d.exponent.natAbs)) := by
  rw [scientific]
  simp

theorem magnitude?_scientific (h : d.IsNormal) (plus : Bool) (width : ℕ) :
    Numeral.magnitude? (d.scientific plus width).toList = some d.value := by
  rw [toList_scientific, Numeral.magnitude?_exponent (scientificParts_spec h) (Numeral.exponent?_written ..)]

theorem sign_pointed {whole : List ℕ} (hne : whole ≠ []) (hwhole : ∀ k ∈ whole, k < 10) (fraction : List ℕ)
    (rest : List Char) :
    Numeral.sign ((pointed whole fraction).toList ++ rest) = (false, (pointed whole fraction).toList ++ rest) := by
  rw [Numeral.toList_pointed, List.append_assoc]
  exact Numeral.sign_chars hne hwhole _

/-- A written decimal starts with a digit. -/
theorem sign_write (h : d.IsNormal) (layout : Layout) :
    Numeral.sign (d.write layout).toList = (false, (d.write layout).toList) := by
  have hparts := positionalParts_spec h
  have hpointed := fun fraction => sign_pointed hparts.nonempty hparts.whole_lt fraction []
  simp only [List.append_nil] at hpointed
  rw [write]
  split
  · have hscientific := scientificParts_spec h
    rw [toList_scientific]
    exact sign_pointed hscientific.nonempty hscientific.whole_lt _ _
  · dsimp only
    split <;> exact hpointed _

/-- A written decimal denotes its number, in every layout. -/
theorem magnitude?_write (h : d.IsNormal) (layout : Layout) :
    Numeral.magnitude? (d.write layout).toList = some d.value := by
  have hparts := positionalParts_spec h
  rw [write]
  split
  · exact magnitude?_scientific h _ _
  · dsimp only
    split
    · next hpoint =>
      -- the zero after the point stands for no fraction
      obtain ⟨hempty, -⟩ := Bool.and_eq_true_iff.1 hpoint
      rw [List.isEmpty_iff] at hempty
      refine Numeral.magnitude?_pointed ⟨hparts.nonempty, hparts.whole_lt, by decide, ?_⟩
      rw [← hparts.value, hempty, Digits.toNat_append]
      simp [Digits.toNat]
    · exact Numeral.magnitude?_pointed hparts

/-! ### Trailing zeros -/

theorem rdropWhile_append {α : Type*} (p : α → Bool) (xs ys : List α) :
    (xs ++ ys).rdropWhile p = if ys.rdropWhile p = [] then xs.rdropWhile p else xs ++ ys.rdropWhile p := by
  rw [List.rdropWhile, List.reverse_append, List.dropWhile_append]
  by_cases h : ys.rdropWhile p = []
  · have hempty : ys.reverse.dropWhile p = [] := List.reverse_eq_nil_iff.1 h
    rw [if_pos h, hempty]
    rfl
  · have hempty : ys.reverse.dropWhile p ≠ [] := fun hnil => h (List.reverse_eq_nil_iff.2 hnil)
    rw [if_neg h, if_neg (by simpa using hempty), List.reverse_append, List.reverse_reverse]
    rfl

/-- Digits without the zeros at their end. -/
def trimmed (ds : List ℕ) : List ℕ := ds.rdropWhile (· == 0)

theorem trimmed_append (ds es : List ℕ) :
    trimmed (ds ++ es) = if trimmed es = [] then trimmed ds else ds ++ trimmed es := rdropWhile_append _ ds es

theorem trimmed_zeros (ds : List ℕ) : ds = trimmed ds ++ zeros (ds.length - (trimmed ds).length) := by
  have hsplit : trimmed ds ++ ds.rtakeWhile (· == 0) = ds := List.rdropWhile_append_rtakeWhile
  have hzeros : ds.rtakeWhile (· == 0) = zeros (ds.rtakeWhile (· == 0)).length :=
    List.eq_replicate_of_mem fun d hd => by simpa using List.mem_rtakeWhile_imp hd
  have hlength := congrArg List.length hsplit
  rw [List.length_append] at hlength
  conv_lhs => rw [← hsplit, hzeros]
  congr 2
  omega

theorem getLast?_trimmed (ds : List ℕ) : (trimmed ds).getLast? ≠ some 0 := by
  intro h
  have hne : trimmed ds ≠ [] := by
    rintro hnil
    rw [hnil] at h
    exact nomatch h
  rw [List.getLast?_eq_getLast_of_ne_nil hne, Option.some_inj] at h
  exact List.rdropWhile_last_not (· == 0) ds hne (beq_iff_eq.2 h)

theorem length_trimmed_le (ds : List ℕ) : (trimmed ds).length ≤ ds.length :=
  (List.rdropWhile_prefix _ ds).length_le

/-- Zeros fill up trimmed digits as they fill up the digits. -/
theorem trimmed_append_zeros {ds : List ℕ} {n : ℕ} (h : ds.length ≤ n) :
    trimmed ds ++ zeros (n - (trimmed ds).length) = ds ++ zeros (n - ds.length) := by
  have hle := length_trimmed_le ds
  conv_rhs => rw [trimmed_zeros ds]
  rw [List.append_assoc, zeros, zeros, zeros, List.replicate_append_replicate, List.length_append,
    List.length_replicate]
  congr 2
  omega

/-- A decimal loses its trailing zeros, since it does not start with one. -/
theorem trim_eq (h : d.IsNormal) : d.trim = ⟨trimmed d.digits, d.exponent⟩ := by
  obtain ⟨first, rest, hdigits, hfirst⟩ := h.exists_cons
  have hcons : trimmed (first :: rest) = first :: trimmed rest := by
    rw [← List.singleton_append, trimmed_append]
    split
    · next hempty =>
      rw [hempty]
      simp [trimmed, hfirst]
    · rfl
  rw [hdigits, hcons, trim, hdigits]
  rfl

theorem trimmed_ne_nil (h : d.IsNormal) : trimmed d.digits ≠ [] := by
  obtain ⟨first, rest, hdigits, hfirst⟩ := h.exists_cons
  intro hempty
  have hzeros := List.rdropWhile_eq_nil_iff.1 hempty first (hdigits ▸ List.mem_cons_self ..)
  exact hfirst (by simpa using hzeros)

theorem IsNormal.trim (h : d.IsNormal) : d.trim.IsNormal := by
  have hzeros := trimmed_zeros d.digits
  rw [trim_eq h]
  refine ⟨trimmed_ne_nil h, fun k hk => h.digit k ?_, fun hhead => h.first ?_⟩
  · rw [hzeros]
    exact List.mem_append_left _ hk
  · rw [hzeros, List.head?_append_of_ne_nil _ (trimmed_ne_nil h)]
    exact hhead

theorem value_trim (h : d.IsNormal) : d.trim.value = d.value := by
  have hle := length_trimmed_le d.digits
  have hpow : (10 : ℚ) ^ (d.exponent + 1 - (trimmed d.digits).length) =
      10 ^ (d.digits.length - (trimmed d.digits).length) * 10 ^ (d.exponent + 1 - d.digits.length) := by
    rw [← zpow_natCast, ← zpow_add₀ (by norm_num)]
    congr 1
    omega
  have hdigits : Digits.toNat d.digits =
      Digits.toNat (trimmed d.digits) * 10 ^ (d.digits.length - (trimmed d.digits).length) := by
    conv_lhs => rw [trimmed_zeros d.digits]
    rw [Digits.toNat_append, zeros, Digits.toNat_zeros, List.length_replicate, Nat.add_zero]
  rw [trim_eq h, value, value, hdigits]
  dsimp only
  rw [hpow]
  push_cast
  ring

theorem scientificParts_trim (d : Decimal) :
    d.trim.digits.take 1 = d.digits.take 1 ∧ d.trim.digits.drop 1 = trimmed (d.digits.drop 1) := by
  rw [trim]
  split
  · next hnil =>
    rw [hnil]
    exact ⟨rfl, rfl⟩
  · next hcons =>
    rw [hcons]
    exact ⟨rfl, rfl⟩

/-- Dropping trailing zeros changes the digits after the point only. -/
theorem positionalParts_trim (h : d.IsNormal) :
    d.trim.positionalParts = (d.positionalParts.1, trimmed d.positionalParts.2) := by
  rw [trim_eq h, positionalParts, positionalParts]
  by_cases hneg : d.exponent < 0
  · rw [if_pos hneg, if_pos hneg]
    dsimp only
    rw [trimmed_append, if_neg (trimmed_ne_nil h)]
  · rw [if_neg hneg, if_neg hneg]
    dsimp only
    generalize d.exponent.toNat + 1 = w
    have hsplit := trimmed_append (d.digits.take w) (d.digits.drop w)
    rw [List.take_append_drop] at hsplit
    rw [hsplit]
    split_ifs with hempty
    · -- nothing but zeros after the point: the whole digits may lose some, which are filled up again
      have hle : (d.digits.take w).length ≤ w := List.length_take_le ..
      have hshort := (length_trimmed_le (d.digits.take w)).trans hle
      rw [List.take_of_length_le hshort, List.drop_of_length_le hshort, hempty, trimmed_append_zeros hle,
        List.length_take]
      congr 3
      omega
    · have hlength : (d.digits.take w).length = w := by
        rw [List.length_take, Nat.min_eq_left]
        by_contra hlt
        rw [List.drop_of_length_le (by omega)] at hempty
        exact hempty rfl
      rw [List.take_left' hlength, List.drop_left' hlength, List.length_append, hlength]
      congr 3
      rw [List.length_take] at hlength
      omega

end Decimal
end Millrace
