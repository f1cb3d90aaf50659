import Millrace.Proofs.Number.DecimalText
import Millrace.Value.Text

/-!
# The general format

The digits of a float in the general format can be found in two steps (`Exact.stepwise`).  The float is first written
with an exponent, which tells the exponent after rounding; then either these digits stay, or the float is rounded once
more, at a place after the point that depends on the exponent.  The exponent may be the one of a carry, as for
`9.9999996` in six digits, and yet both roundings give the same number, so the two steps give what `generalText` writes
from one list of digits.

## Main statements

* `generalText_eq_stepwise`: one list of digits is enough.
* `rational?_generalText`: the text denotes the rounded number.
* `general_and_report_texts`: the texts of finite floats.
-/

namespace Millrace

open Decimal (pointed trimmed zeros)

/-! ### The format in two steps -/

/-- A text with a point loses the zeros at its end, and the point if nothing else follows it. -/
def trimFraction (cs : List Char) : List Char :=
  if '.' ∈ cs then (cs.rdropWhile (· == '0')).rdropWhile (· == '.') else cs

namespace Exact

/-- The mark of a negative number. -/
def mark (x : Exact) : List Char := if x.negative then ['-'] else []

/-- A float with `n` significant digits and an exponent. -/
def exponentForm (x : Exact) (n : ℕ) : List Char := x.mark ++ ((x.significant n).scientific false 1).toList

/-- The digits of a float that is rounded to `n` digits after the point, one of them at least before it. -/
def fixedDigits (x : Exact) (n : ℕ) : List ℕ :=
  let ds := Digits.ofNat (x.units (-n))
  zeros (n + 1 - ds.length) ++ ds

/-- A float with `n` digits after the point. -/
def fixedForm (x : Exact) (n : ℕ) : List Char :=
  let ds := x.fixedDigits n
  x.mark ++ (pointed (ds.take (ds.length - n)) (ds.drop (ds.length - n))).toList

/-- A float in the general format.  The text with an exponent decides by its exponent whether its digits are taken, or
those of a text without exponent that ends at the same digit. -/
def stepwise (x : Exact) (precision : ℕ) : List Char :=
  let precision := max precision 1
  if x.mantissa = 0 then x.mark ++ ['0']
  else
    match (x.exponentForm precision).span (· != 'e') with
    | (text, []) => text
    | (mantissa, _ :: more) =>
      let exponent := (Numeral.integer? (String.ofList more)).getD 0
      if exponent < -4 ∨ precision ≤ exponent then
        let ds := Digits.ofNat exponent.natAbs
        trimFraction mantissa ++ 'e' :: (if exponent < 0 then '-' else '+') ::
          Digits.chars (zeros (2 - ds.length) ++ ds)
      else trimFraction (x.fixedForm (precision - 1 - exponent).toNat)

end Exact

/-- A text without point and exponent is followed by a point and a zero. -/
def withPoint (cs : List Char) : List Char :=
  if '.' ∈ cs ∨ 'e' ∈ cs then cs else cs ++ ['.', '0']

/-- No zero ends the digits after the point, and there are some if there is a point. -/
def Tidy (cs : List Char) : Prop :=
  '.' ∈ cs.takeWhile (· != 'e') → ∀ c ∈ (cs.takeWhile (· != 'e')).getLast?, c ≠ '0' ∧ c ≠ '.'

/-! ### Dropping zeros from a text -/

section
variable {ds whole fraction : List ℕ} {cs : List Char} {e : ℤ} {q : ℚ}

theorem rdropWhile_chars (hds : ∀ d ∈ ds, d < 10) :
    (Digits.chars ds).rdropWhile (· == '0') = Digits.chars (trimmed ds) := by
  induction ds using List.reverseRecOn with
  | nil => rfl
  | append_singleton ds d ih =>
    have hzero : ∀ d < 10, (Nat.digitChar d == '0') = (d == 0) := by decide
    rw [Digits.chars_append_singleton, trimmed, List.rdropWhile_concat, List.rdropWhile_concat,
      hzero d (hds d (by simp)), ih fun e he => hds e (List.mem_append_left _ he)]
    split
    · rfl
    · exact (Digits.chars_append_singleton ds d).symm

/-- A text that ends in a digit keeps its end when points are dropped. -/
theorem rdropWhile_point (hne : ds ≠ []) (hds : ∀ d ∈ ds, d < 10) (cs : List Char) :
    (cs ++ Digits.chars ds).rdropWhile (· == '.') = cs ++ Digits.chars ds := by
  rcases List.eq_nil_or_concat' ds with rfl | ⟨front, last, rfl⟩
  · exact absurd rfl hne
  · have hpoint : ∀ d < 10, ¬ (Nat.digitChar d == '.') = true := by decide
    rw [Digits.chars_append_singleton, ← List.append_assoc]
    exact List.rdropWhile_concat_neg _ _ _ (hpoint last (hds last (by simp)))

theorem point_mem_pointed (h : fraction ≠ []) : '.' ∈ (pointed whole fraction).toList := by
  rw [Numeral.toList_pointed, if_neg h]
  simp

theorem point_notMem_pointed (hwhole : ∀ d ∈ whole, d < 10) : '.' ∉ (pointed whole []).toList := by
  rw [Numeral.toList_pointed, if_pos rfl, List.append_nil]
  exact Digits.notMem_chars (by decide) hwhole

theorem e_notMem_pointed (h : StandsFor whole fraction e q) : 'e' ∉ (pointed whole fraction).toList := by
  rw [Numeral.toList_pointed, List.mem_append]
  rintro (hmem | hmem)
  · exact Digits.notMem_chars (by decide) h.whole_lt hmem
  · split at hmem
    · exact nomatch hmem
    · obtain hmem | hmem := List.mem_cons.1 hmem
      · exact absurd hmem (by decide)
      · exact Digits.notMem_chars (by decide) h.fraction_lt hmem

/-- The zeros that a text loses are those at the end of the digits after its point. -/
theorem trimFraction_pointed (hcs : '.' ∉ cs) (h : StandsFor whole fraction e q) :
    trimFraction (cs ++ (pointed whole fraction).toList) = cs ++ (pointed whole (trimmed fraction)).toList := by
  rw [trimFraction]
  by_cases hempty : fraction = []
  · subst hempty
    rw [if_neg (by simp [hcs, point_notMem_pointed h.whole_lt])]
    rfl
  · have hzeros : ('.' :: Digits.chars fraction).rdropWhile (· == '0') = '.' :: Digits.chars (trimmed fraction) := by
      rw [← List.singleton_append, Decimal.rdropWhile_append, rdropWhile_chars h.fraction_lt]
      split
      · next hnil => rw [hnil]; rfl
      · rfl
    rw [if_pos (List.mem_append_right _ (point_mem_pointed hempty)), Numeral.toList_pointed, if_neg hempty,
      ← List.append_assoc, Decimal.rdropWhile_append, hzeros, if_neg (List.cons_ne_nil _ _), Numeral.toList_pointed]
    split
    · next hnil =>
      rw [hnil]
      change (cs ++ Digits.chars whole ++ ['.']).rdropWhile (· == '.') = _
      rw [List.rdropWhile_concat_pos _ _ _ (by decide), rdropWhile_point h.nonempty h.whole_lt, List.append_nil]
    · next hleft =>
      have htrimmed : ∀ d ∈ trimmed fraction, d < 10 := fun d hd =>
        h.fraction_lt d ((List.rdropWhile_prefix _ fraction).subset hd)
      rw [List.append_cons, rdropWhile_point hleft htrimmed, List.append_assoc, List.append_assoc]
      rfl

end

/-! ### One list of digits -/

theorem ne_of_e_notMem {cs : List Char} (hcs : 'e' ∉ cs) : ∀ c ∈ cs, (c != 'e') = true := by
  intro c hc
  rw [bne_iff_ne]
  rintro rfl
  exact hcs hc

theorem span_exponent {cs : List Char} (hcs : 'e' ∉ cs) (more : List Char) :
    (cs ++ 'e' :: more).span (· != 'e') = (cs, 'e' :: more) := by
  have hall := ne_of_e_notMem hcs
  rw [List.span_eq_takeWhile_dropWhile, List.takeWhile_append_of_pos hall, List.dropWhile_append_of_pos hall]
  simp

theorem integer?_ofList (cs : List Char) : Numeral.integer? (String.ofList cs) = Numeral.exponent? cs := by
  rw [Numeral.integer?, String.toList_ofList]
  rfl

theorem write_general (d : Decimal) (p : ℕ) : d.write (generalLayout p false) =
    if d.exponent < -4 ∨ p ≤ d.exponent then d.scientific true 2 else d.positional := by
  rw [Decimal.write, Decimal.positional]
  simp only [Bool.or_eq_true, decide_eq_true_eq]
  rw [show (generalLayout p false).keepPoint = false from rfl, Bool.and_false, if_neg Bool.false_ne_true]
  rfl

namespace Exact

variable {x : Exact} {p : ℕ}

theorem notMem_mark {c : Char} (hc : c ≠ '-') (x : Exact) : c ∉ x.mark := by
  rw [mark]
  split <;> simp [hc]

theorem e_notMem_mark_append {whole fraction : List ℕ} {e : ℤ} {q : ℚ} (x : Exact) (h : StandsFor whole fraction e q) :
    'e' ∉ x.mark ++ (pointed whole fraction).toList := by
  rw [List.mem_append, not_or]
  exact ⟨notMem_mark (by decide) x, e_notMem_pointed h⟩

/-- The text of a float that ends at its last significant digit has the significant digits. -/
theorem fixedForm_eq (hx : x.mantissa ≠ 0) (hp : 1 ≤ p) (he : (x.significant p).exponent < p) :
    x.fixedForm (p - 1 - (x.significant p).exponent).toNat = x.mark ++ (x.significant p).positional.toList := by
  have hlength := (significant_spec hx hp).2.1
  have hdigits := digits_significant hx hp
  rw [fixedForm, fixedDigits, Decimal.positional, Decimal.positionalParts]
  generalize x.significant p = d at *
  have hunit : -(((p - 1 - d.exponent).toNat : ℕ) : ℤ) = d.exponent + 1 - p := by omega
  dsimp only
  rw [hunit, ← hdigits, hlength]
  by_cases hneg : d.exponent < 0
  · -- zeros fill up the digits, one before the point and the others after it
    obtain ⟨k, hk⟩ : ∃ k : ℕ, d.exponent = -(k + 1 : ℕ) := ⟨(-d.exponent - 1).toNat, by omega⟩
    have hplaces : (p - 1 - d.exponent).toNat = p + k := by omega
    have hzeros : p + k + 1 - p = k + 1 := by omega
    have hfirst : (zeros (k + 1) ++ d.digits).length - (p + k) = 1 := by
      rw [List.length_append, zeros, List.length_replicate]
      omega
    rw [if_pos hneg, hplaces, hzeros, hfirst, show (-d.exponent - 1).toNat = k by omega, zeros, List.replicate_succ]
    rfl
  · -- the point stands among the digits or behind them
    have hzeros : (p - 1 - d.exponent).toNat + 1 - p = 0 := by omega
    have hfilled : d.exponent.toNat + 1 - p = 0 := by omega
    have hwhole : p - (p - 1 - d.exponent).toNat = d.exponent.toNat + 1 := by omega
    rw [if_neg hneg, hzeros, hfilled, zeros, List.replicate_zero, List.nil_append, List.append_nil, hlength, hwhole]

theorem stepwise_eq (hx : x.mantissa ≠ 0) (hp : 1 ≤ p) :
    x.stepwise p = x.mark ++ ((x.significant p).trim.write (generalLayout p false)).toList := by
  obtain ⟨hnormal, -, -⟩ := significant_spec hx hp
  have hpoint : '.' ∉ x.mark := notMem_mark (by decide) x
  have hfixed := fixedForm_eq hx hp
  rw [stepwise, max_eq_left hp, if_neg hx, exponentForm]
  generalize x.significant p = d at *
  have hscientific := Decimal.scientificParts_spec hnormal
  have hpositional := Decimal.positionalParts_spec hnormal
  have hexponent : d.trim.exponent = d.exponent := by rw [Decimal.trim_eq hnormal]
  -- what follows the mark reads as the exponent of the decimal, so both texts take the same branch
  rw [Decimal.toList_scientific, ← List.append_assoc, span_exponent (x.e_notMem_mark_append hscientific),
    write_general, hexponent]
  dsimp only
  rw [integer?_ofList, Numeral.exponent?_written, Option.getD_some]
  split
  · obtain ⟨hfirst, hrest⟩ := Decimal.scientificParts_trim d
    rw [trimFraction_pointed hpoint hscientific, Decimal.toList_scientific, hfirst, hrest, hexponent,
      List.append_assoc]
    split <;> rfl
  · next h =>
    rw [not_or, not_lt, not_le] at h
    rw [hfixed h.2, Decimal.positional, trimFraction_pointed hpoint hpositional, Decimal.positional,
      Decimal.positionalParts_trim hnormal]

end Exact

/-! ### The texts of a finite float -/

section
variable {f : Float} {x : Exact} {p : ℕ}

theorem toList_write (h : Exact.ofFloat? f = some x) (layout : Layout) (digits : Exact → Decimal) :
    (layout.write digits f).toList = x.mark ++ ((digits x).write layout).toList := by
  rw [Layout.write, h, Exact.mark]
  dsimp only
  rw [String.toList_append]
  split <;> rfl

theorem toList_generalText (h : Exact.ofFloat? f = some x) (hp : 1 ≤ p) :
    (generalText f p).toList = x.mark ++ ((x.significant p).trim.write (generalLayout p false)).toList := by
  rw [generalText, max_eq_left hp]
  exact toList_write h ..

theorem toList_scientificText (h : Exact.ofFloat? f = some x) (p : ℕ) :
    (scientificText f p).toList = x.exponentForm p := by
  rw [scientificText, toList_write h, Decimal.write, if_pos, Exact.exponentForm]
  simp [lt_or_ge]

/-- One list of digits gives the text of the two steps. -/
theorem generalText_eq_stepwise (h : Exact.ofFloat? f = some x) (p : ℕ) :
    (generalText f p).toList = x.stepwise p := by
  have hp : 1 ≤ max p 1 := le_max_right p 1
  have hmax : generalText f p = generalText f (max p 1) := by rw [generalText, generalText, max_eq_left hp]
  rw [hmax, toList_generalText h hp]
  by_cases hx : x.mantissa = 0
  · obtain ⟨k, hk⟩ := Nat.exists_eq_add_of_le' hp
    have hzero : (x.significant (max p 1)).trim = ⟨[0], 0⟩ := by
      rw [Exact.significant, if_pos hx, hk, List.replicate_succ]
      simp [Decimal.trim]
    rw [hzero, write_general, if_neg (by simp), Exact.stepwise, if_pos hx]
    rfl
  · have hstep := Exact.stepwise_eq hx hp
    rw [← hstep, Exact.stepwise, Exact.stepwise, max_eq_left hp]

/-- A text denotes a number with the sign of the float if what follows the minus sign denotes the magnitude. -/
theorem rational?_mark {s : String} {cs : List Char} {q : ℚ} (hs : s.toList = x.mark ++ cs)
    (hsign : Numeral.sign cs = (false, cs)) (hcs : Numeral.magnitude? cs = some q) :
    Numeral.rational? s = some (signed x.negative q) := by
  rw [Numeral.rational?, hs, Exact.mark]
  cases x.negative with
  | false =>
    rw [if_neg Bool.false_ne_true, List.nil_append, hsign]
    dsimp only
    rw [hcs]
    rfl
  | true =>
    change Option.map _ (Numeral.magnitude? cs) = _
    rw [hcs]
    rfl

theorem rational?_write (h : Exact.ofFloat? f = some x) {digits : Exact → Decimal} (hd : (digits x).IsNormal)
    (layout : Layout) : Numeral.rational? (layout.write digits f) = some (signed x.negative (digits x).value) :=
  rational?_mark (toList_write h layout digits) (Decimal.sign_write hd layout) (Decimal.magnitude?_write hd layout)

theorem fixedDigits_spec (x : Exact) (n : ℕ) : (∀ d ∈ x.fixedDigits n, d < 10) ∧ n < (x.fixedDigits n).length ∧
    Digits.toNat (x.fixedDigits n) = x.units (-n) := by
  rw [Exact.fixedDigits]
  refine ⟨fun d hd => (List.mem_append.1 hd).elim (Decimal.zeros_lt d) Digits.lt_ten_of_mem_ofNat, ?_, ?_⟩
  · rw [List.length_append, zeros, List.length_replicate]
    omega
  · rw [zeros, Digits.toNat_zeros_append, Digits.toNat_ofNat]

/-- A text with `n` digits after the point denotes the number rounded there. -/
theorem rational?_fixedForm (x : Exact) (n : ℕ) : Numeral.rational? (String.ofList (x.fixedForm n)) =
    some (signed x.negative (x.units (-n) * 10 ^ (-n : ℤ))) := by
  obtain ⟨hlt, hlength, hvalue⟩ := fixedDigits_spec x n
  have hform : (String.ofList (x.fixedForm n)).toList = x.mark ++ _ := String.toList_ofList
  generalize x.fixedDigits n = ds at hlt hlength hvalue hform
  have hparts : StandsFor (ds.take (ds.length - n)) (ds.drop (ds.length - n)) 0 (x.units (-n) * 10 ^ (-n : ℤ)) := by
    refine ⟨?_, fun d hd => hlt d (List.mem_of_mem_take hd), fun d hd => hlt d (List.mem_of_mem_drop hd), ?_⟩
    · rw [Ne, List.take_eq_nil_iff, not_or]
      exact ⟨by omega, List.ne_nil_of_length_pos (by omega)⟩
    · rw [List.take_append_drop, hvalue, List.length_drop]
      congr 2
      omega
  have hsign := Decimal.sign_pointed hparts.nonempty hparts.whole_lt (ds.drop (ds.length - n)) []
  rw [List.append_nil] at hsign
  exact rational?_mark hform hsign (Numeral.magnitude?_pointed hparts)

/-! ### Points and exponents -/

theorem takeWhile_exponent {cs : List Char} (hcs : 'e' ∉ cs) (more : List Char) :
    (cs ++ 'e' :: more).takeWhile (· != 'e') = cs := by
  have hspan := span_exponent hcs more
  rw [List.span_eq_takeWhile_dropWhile] at hspan
  exact (Prod.mk.inj hspan).1

end

section
variable {d : Decimal} {whole fraction : List ℕ} {cs : List Char} {e : ℤ} {q : ℚ}

theorem e_mem_write (h : d.IsNormal) (p : ℕ) :
    'e' ∈ (d.write (generalLayout p false)).toList ↔ d.exponent < -4 ∨ p ≤ d.exponent := by
  have hparts := Decimal.positionalParts_spec h
  rw [write_general]
  split
  · next hexponent =>
    rw [Decimal.toList_scientific]
    exact iff_of_true (List.mem_append_right _ (List.mem_cons_self ..)) hexponent
  · next hexponent => exact iff_of_false (e_notMem_pointed hparts) hexponent

/-- Digits after a point that do not end in a zero are the end of a text that needs no trimming. -/
theorem getLast?_pointed (hcs : '.' ∉ cs) (h : StandsFor whole fraction e q) (hlast : fraction.getLast? ≠ some 0)
    (hpoint : '.' ∈ cs ++ (pointed whole fraction).toList) :
    ∀ c ∈ (cs ++ (pointed whole fraction).toList).getLast?, c ≠ '0' ∧ c ≠ '.' := by
  rcases List.eq_nil_or_concat' fraction with rfl | ⟨front, last, rfl⟩
  · obtain hmem | hmem := List.mem_append.1 hpoint
    · exact absurd hmem hcs
    · exact absurd hmem (point_notMem_pointed h.whole_lt)
  · have hchar : ∀ d < 10, d ≠ 0 → Nat.digitChar d ≠ '0' ∧ Nat.digitChar d ≠ '.' := by decide
    have hlt : last < 10 := h.fraction_lt last (by simp)
    have hne : last ≠ 0 := fun hzero => hlast (by simp [hzero])
    intro c hc
    rw [Numeral.toList_pointed, if_neg (by simp), Digits.chars_append_singleton, ← List.cons_append,
      ← List.append_assoc, ← List.append_assoc, List.getLast?_concat] at hc
    obtain rfl := Option.some_inj.1 hc
    exact hchar last hlt hne

/-- The general format leaves no zero at the end of a fraction. -/
theorem tidy_write (h : d.IsNormal) (x : Exact) (p : ℕ) :
    Tidy (x.mark ++ (d.trim.write (generalLayout p false)).toList) := by
  have hpoint : '.' ∉ x.mark := Exact.notMem_mark (by decide) x
  rw [write_general]
  split
  · have hparts := Decimal.scientificParts_spec h.trim
    have hlast : (d.trim.digits.drop 1).getLast? ≠ some 0 := by
      rw [(Decimal.scientificParts_trim d).2]
      exact Decimal.getLast?_trimmed _
    rw [Decimal.toList_scientific, ← List.append_assoc, Tidy, takeWhile_exponent (x.e_notMem_mark_append hparts)]
    exact getLast?_pointed hpoint hparts hlast
  · have hparts := Decimal.positionalParts_spec h.trim
    have hlast : d.trim.positionalParts.2.getLast? ≠ some 0 := by
      rw [Decimal.positionalParts_trim h]
      exact Decimal.getLast?_trimmed _
    have htext : (x.mark ++ d.trim.positional.toList).takeWhile (· != 'e') = x.mark ++ d.trim.positional.toList :=
      List.takeWhile_eq_self_iff.2 (ne_of_e_notMem (x.e_notMem_mark_append hparts))
    rw [Tidy, htext]
    exact getLast?_pointed hpoint hparts hlast

/-- The layout of reports differs by the point after a whole number. -/
theorem write_report (h : d.IsNormal) (p : ℕ) :
    (d.write (generalLayout p true)).toList = withPoint (d.write (generalLayout p false)).toList := by
  have hparts := Decimal.positionalParts_spec h
  have hreport : d.write (generalLayout p true) = if d.exponent < -4 ∨ p ≤ d.exponent then d.scientific true 2 else
      if d.positionalParts.2 = [] then pointed d.positionalParts.1 [0] else d.positional := by
    rw [Decimal.write, Decimal.positional]
    simp only [Bool.or_eq_true, decide_eq_true_eq]
    rw [show (generalLayout p true).keepPoint = true from rfl, Bool.and_true]
    simp only [List.isEmpty_iff]
    rfl
  rw [hreport, write_general]
  split
  · rw [withPoint, if_pos]
    right
    rw [Decimal.toList_scientific]
    exact List.mem_append_right _ (List.mem_cons_self ..)
  · split
    · next hempty =>
      have hpositional : d.positional = pointed d.positionalParts.1 [] := by
        rw [← hempty]
        rfl
      have hpoint : '.' ∉ d.positional.toList := by
        rw [hpositional]
        exact point_notMem_pointed hparts.whole_lt
      have he : 'e' ∉ d.positional.toList := e_notMem_pointed hparts
      rw [withPoint, if_neg (not_or.2 ⟨hpoint, he⟩), hpositional, Numeral.toList_pointed, Numeral.toList_pointed,
        if_neg (by decide), if_pos rfl, List.append_nil]
      rfl
    · next hfraction => rw [withPoint, if_pos (.inl (point_mem_pointed hfraction))]

theorem withPoint_mark (x : Exact) (cs : List Char) : withPoint (x.mark ++ cs) = x.mark ++ withPoint cs := by
  have hpoint : '.' ∉ x.mark := Exact.notMem_mark (by decide) x
  have hmark : 'e' ∉ x.mark := Exact.notMem_mark (by decide) x
  simp only [withPoint, List.mem_append, hpoint, hmark, false_or]
  split
  · rfl
  · rw [List.append_assoc]

theorem point_or_e_mem_withPoint (cs : List Char) : '.' ∈ withPoint cs ∨ 'e' ∈ withPoint cs := by
  rw [withPoint]
  split
  · next h => exact h
  · exact .inl (by simp)

end

/-! ### Finite floats -/

section
open Float.Model.UnpackedFloat
variable {f : Float} {x : Exact} {s : Sign} {m p : ℕ} {e : ℤ} {hm : 0 < m}

theorem rational?_generalText (h : Exact.ofFloat? f = some x) (hx : x.mantissa ≠ 0) (hp : 1 ≤ p) :
    Numeral.rational? (generalText f p) = some (signed x.negative (x.significant p).value) := by
  have hnormal := (Exact.significant_spec hx hp).1
  rw [generalText, max_eq_left hp, ← Decimal.value_trim hnormal]
  exact rational?_write h hnormal.trim _

theorem rational?_scientificText (h : Exact.ofFloat? f = some x) (hx : x.mantissa ≠ 0) (hp : 1 ≤ p) :
    Numeral.rational? (scientificText f p) = some (signed x.negative (x.significant p).value) :=
  rational?_write h (Exact.significant_spec hx hp).1 _

theorem rational?_reportText (h : Exact.ofFloat? f = some x) (hx : x.mantissa ≠ 0) :
    Numeral.rational? (reportText f) = some (signed x.negative (x.significant reportDigits).value) := by
  have hnormal := (Exact.significant_spec hx (p := reportDigits) (by decide)).1
  rw [← Decimal.value_trim hnormal]
  exact rational?_write h hnormal.trim _

/-- A report shows the general format, with a point if there is nothing else to tell the float from an integer. -/
theorem reportText_eq_stepwise (h : Exact.ofFloat? f = some x) (hx : x.mantissa ≠ 0) :
    (reportText f).toList = withPoint (x.stepwise reportDigits) := by
  have hnormal := (Exact.significant_spec hx (p := reportDigits) (by decide)).1.trim
  rw [← generalText_eq_stepwise h, toList_generalText h (by decide), withPoint_mark]
  exact (toList_write h ..).trans (congrArg _ (write_report hnormal reportDigits))

theorem reportText_ne_text (h : Exact.ofFloat? f = some x) (hx : x.mantissa ≠ 0) (n : Int64) :
    reportText f ≠ (Value.int n).text := by
  intro heq
  have hmem := point_or_e_mem_withPoint (x.stepwise reportDigits)
  rw [← reportText_eq_stepwise h hx, heq] at hmem
  exact hmem.elim (Digits.notMem_signed (by decide) (by decide) n.toInt)
    (Digits.notMem_signed (by decide) (by decide) n.toInt)

theorem abs_signed {q : ℚ} (hq : 0 < q) (negative : Bool) : |signed negative q| = q := by
  cases negative with
  | false => exact abs_of_pos hq
  | true => exact (abs_neg q).trans (abs_of_pos hq)

/-- The general format of a finite float other than zero denotes the float rounded to `p` significant digits, as do the
text with an exponent and, where there is room for them, the digits up to a fixed place after the point.  It is the text
of the two steps, it has an exponent exactly if that of the rounded number is below `-4` or not below `p`, and no zero
is left at the end of a fraction.  A report denotes the same number as the format in six digits, and it is never the
text of an integer. -/
theorem general_and_report_texts (hf : f.toModel.unpack = .finite s m e hm) (hp : 1 ≤ p) :
    ∃ r, RoundsTo p (signed (isMinus s) (dyadic m e)) r ∧
      Numeral.rational? (generalText f p) = some r ∧ Numeral.rational? (scientificText f p) = some r ∧
      (scientificText f p).toList = Exact.exponentForm ⟨isMinus s, m, e⟩ p ∧
      (generalText f p).toList = Exact.stepwise ⟨isMinus s, m, e⟩ p ∧
      (Int.log 10 |r| < p → Numeral.rational?
        (String.ofList (Exact.fixedForm ⟨isMinus s, m, e⟩ (p - 1 - Int.log 10 |r|).toNat)) = some r) ∧
      ('e' ∈ (generalText f p).toList ↔ Int.log 10 |r| < -4 ∨ p ≤ Int.log 10 |r|) ∧
      Tidy (generalText f p).toList ∧
      (∃ t, RoundsTo 6 (signed (isMinus s) (dyadic m e)) t ∧
        Numeral.rational? (generalText f 6) = some t ∧ Numeral.rational? (reportText f) = some t) ∧
      (reportText f).toList = withPoint (Exact.stepwise ⟨isMinus s, m, e⟩ 6) ∧
      ∀ n : Int64, reportText f ≠ (Value.int n).text := by
  have hvalue := Exact.ofFloat?_finite hf
  have hx : (⟨isMinus s, m, e⟩ : Exact).mantissa ≠ 0 := hm.ne'
  obtain ⟨hnormal, -, hround⟩ := Exact.significant_spec hx hp
  obtain ⟨-, -, hreport⟩ := Exact.significant_spec hx (p := 6) (by decide)
  have hexponent : Int.log 10 |signed (isMinus s) (Exact.significant ⟨isMinus s, m, e⟩ p).value| =
      (Exact.significant ⟨isMinus s, m, e⟩ p).exponent := by
    rw [abs_signed hnormal.pos, hnormal.log_value]
  refine ⟨signed (isMinus s) (Exact.significant ⟨isMinus s, m, e⟩ p).value, hround.signed _,
    rational?_generalText hvalue hx hp, rational?_scientificText hvalue hx hp, toList_scientificText hvalue p,
    generalText_eq_stepwise hvalue p, ?_, ?_, ?_, ⟨_, hreport.signed _, rational?_generalText hvalue hx (by decide),
    rational?_reportText hvalue hx⟩, reportText_eq_stepwise hvalue hx, reportText_ne_text hvalue hx⟩
  · rw [hexponent]
    intro hlt
    have hunit : -(((p - 1 - (Exact.significant ⟨isMinus s, m, e⟩ p).exponent).toNat : ℕ) : ℤ) =
        (Exact.significant ⟨isMinus s, m, e⟩ p).exponent + 1 - p := by omega
    rw [rational?_fixedForm, hunit, ← Exact.value_significant hx hp]
  · rw [toList_generalText hvalue hp, List.mem_append, e_mem_write hnormal.trim, hexponent, Decimal.trim_eq hnormal]
    exact or_iff_right (Exact.notMem_mark (by decide) _)
  · rw [toList_generalText hvalue hp]
    exact tidy_write hnormal _ p

/-- The float `9.9999996`, which six digits cannot tell from ten, so that its exponent grows by rounding. -/
def belowTen : Float := Float.ofBits 0x4023FFFFF29406B3

theorem significant_belowTen :
    Exact.significant ⟨false, 5629499309033139, -49⟩ 6 = ⟨[1, 0, 0, 0, 0, 0], 1⟩ := by
  have hratio : Exact.ratio ⟨false, 5629499309033139, -49⟩ = (5629499309033139, 2 ^ 49) := by rfl
  have hexponent : decimalExponent 5629499309033139 (2 ^ 49) = 0 := by cbv
  have hunits : inUnits 5629499309033139 (2 ^ 49) (0 - (6 - 1 : ℕ)) = (562949930903313900000, 2 ^ 49) := by rfl
  rw [Exact.significant, if_neg (by decide), hratio]
  dsimp only
  rw [hexponent, hunits]
  cbv

theorem general_and_report_texts_belowTen :
    belowTen.toModel.unpack = .finite .positive 5629499309033139 (-49) (by decide) ∧ 1 ≤ 6 ∧
      generalText belowTen 6 = "10" ∧ scientificText belowTen 6 = "1.00000e1" ∧ reportText belowTen = "10.0" ∧
      ∃ r, RoundsTo 6 (dyadic 5629499309033139 (-49)) r ∧ Numeral.rational? "10" = some r ∧
        Numeral.rational? "10.0" = some r ∧ ¬ (Int.log 10 |r| < -4 ∨ 6 ≤ Int.log 10 |r|) := by
  have hf : belowTen.toModel.unpack = .finite .positive 5629499309033139 (-49) (by decide) := by rfl
  have hvalue : Exact.ofFloat? belowTen = some ⟨false, 5629499309033139, -49⟩ := by rfl
  have hgeneral : generalText belowTen 6 = "10" := by
    rw [generalText, max_eq_left (by decide), Layout.write, hvalue]
    dsimp only
    rw [significant_belowTen]
    cbv
  have hscientific : scientificText belowTen 6 = "1.00000e1" := by
    rw [scientificText, Layout.write, hvalue]
    dsimp only
    rw [significant_belowTen]
    cbv
  have hreport : reportText belowTen = "10.0" := by
    rw [reportText, Layout.write, hvalue, reportDigits]
    dsimp only
    rw [significant_belowTen]
    cbv
  obtain ⟨r, hround, hread, -, -, -, -, hexponent, -, ⟨t, -, hsame, htext⟩, -⟩ :=
    general_and_report_texts hf (p := 6) (by decide)
  have ht : t = r := Option.some_inj.1 (hsame.symm.trans hread)
  rw [hgeneral] at hread hexponent
  rw [hreport, ht] at htext
  exact ⟨hf, by decide, hgeneral, hscientific, hreport, r, hround, hread, htext,
    fun h => absurd (hexponent.2 h) (by decide)⟩

end
end Millrace
