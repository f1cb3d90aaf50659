import Millrace.Proofs.Inference.Nesting
import Millrace.Proofs.Number.Naturals
import Millrace.Proofs.Number.Order

/-!
# Thresholds

A higher threshold only makes positions unknown (`unify_mono`).  Above one half the key that reaches the threshold is the
only one that can, so the order of the sample does not matter (`unify_perm`).  Both hold for samples of any size: a
share of at most a half is at most a half as a float, however the numbers are rounded (`le_half_of_le_share`).
-/

namespace Millrace

open Float.Model (Format UnpackedFloat)

/-! ### Shares of at most a half -/

section
variable {t : Float} {count total : Nat}

theorem denotes_half : Denotes 0.5 (1 / 2) := by
  refine ⟨2 ^ 52, -53, by decide, by rfl, ⟨by decide, by decide, Or.inl le_rfl⟩, ?_⟩
  norm_num [dyadic]

private theorem share_eq (count total : Nat) :
    share count total = .ofModel (.pack (UnpackedFloat.div Format.binary64 (Float.ofNat count).toModel.unpack
      (Float.ofNat total).toModel.unpack)) := rfl

/-- In an infinite total, a share vanishes or is not a number. -/
theorem le_half_of_infinite (hcount : count ≠ 0) (htotal : (Float.ofNat total).toModel.unpack = .infinity .positive)
    (ht : t ≤ share count total) : t ≤ 0.5 := by
  rcases le_or_gt (naturalValue count) (dyadic (2 ^ 53 - 1) 971) with hle | hgt
  · obtain ⟨m, e, hm, hfinite, -, -⟩ := denotes_ofNat_of_le hcount hle
    have hzero : share count total = 0.0 := by
      rw [share_eq, hfinite, htotal]
      rfl
    rw [hzero] at ht
    exact float_le_trans ht (by decide)
  · have hnan : share count total = 0.0 / 0.0 := by
      rw [share_eq, unpack_ofNat_of_gt hcount hgt, htotal]
      rfl
    rw [hnan, float_le_iff, unpacked_le_iff] at ht
    obtain ⟨-, -, r, hr, -⟩ := ht
    cases hr

/-- A share of at most a half is at most a half as a float. -/
theorem le_half_of_le_share (hcount : count ≠ 0) (hhalf : 2 * count ≤ total) (ht : t ≤ share count total) :
    t ≤ 0.5 := by
  have hne : total ≠ 0 := by omega
  rcases lt_or_ge (dyadic (2 ^ 53 - 1) 971) (naturalValue total) with hgt | hle
  · exact le_half_of_infinite hcount (unpack_ofNat_of_gt hne hgt) ht
  · have hone := one_le_naturalValue hcount
    have hdouble : 2 * naturalValue count ≤ naturalValue total := by
      rw [← naturalValue_two_mul hcount]
      exact naturalValue_le (by omega) hhalf
    have hquotient : naturalValue count / naturalValue total ≤ dyadic 1 (-1) := by
      rw [div_le_iff₀ (by linarith)]
      norm_num [dyadic]
      linarith
    have hrange : InRange (naturalValue count / naturalValue total) := by
      constructor
      · rw [le_div_iff₀ (by linarith)]
        calc
          dyadic 1 (-1074) * naturalValue total ≤ dyadic 1 (-1074) * dyadic (2 ^ 53 - 1) 971 :=
            mul_le_mul_of_nonneg_left hle (dyadic_pos Nat.one_pos _).le
          _ = (2 ^ 53 - 1) * 2 ^ (-103 : Int) := by
            unfold dyadic
            rw [mul_left_comm, mul_assoc, ← zpow_add₀ (by norm_num)]
            norm_num
          _ ≤ 1 := by norm_num
          _ ≤ naturalValue count := hone
      · exact hquotient.trans ((dyadic_le_of_exponent_le 1 (by decide)).trans (dyadic_le_iff.2 (by decide)))
    have hnumerator := denotes_ofNat_of_le hcount (by linarith)
    obtain ⟨w, hw, hrounded⟩ := denotes_div hnumerator (denotes_ofNat_of_le hne hle) hrange
    have hbelow := (hrounded 1 (-1) (by decide) (by decide)).2 hquotient
    refine float_le_trans ht ((hw.le_iff denotes_half).2 ?_)
    norm_num [dyadic] at hbelow ⊢
    exact hbelow

end

/-! ### Dominant keys -/

section
variable {α : Type} [DecidableEq α] {keys keys' : List α} {k : α}

/-- No key occurs more often than the most frequent one. -/
theorem count_le_mostFrequent (all : List α) (best : α) (rest : List α) :
    ∀ k ∈ best :: rest, all.count k ≤ all.count (mostFrequent all best rest) := by
  induction rest generalizing best with
  | nil =>
    rintro k hk
    rw [List.mem_singleton.1 hk]
    rfl
  | cons k' rest ih =>
    have hbetter := ih (if all.count best < all.count k' then k' else best)
    intro k hk
    rw [mostFrequent]
    have hfirst := hbetter _ (List.mem_cons_self ..)
    rcases List.mem_cons.1 hk with rfl | hk
    · refine le_trans ?_ hfirst
      split <;> omega
    · rcases List.mem_cons.1 hk with rfl | hk
      · refine le_trans ?_ hfirst
        split <;> omega
      · exact hbetter k (List.mem_cons_of_mem _ hk)

theorem count_add_count_le {a b : α} (h : a ≠ b) (keys : List α) : keys.count a + keys.count b ≤ keys.length := by
  rw [List.length_eq_countP_add_countP (· == a), List.count, List.count]
  refine Nat.add_le_add_left (List.countP_mono_left fun k _ hk => ?_) _
  rw [beq_iff_eq] at hk
  simpa [hk] using h.symm

variable {inference strict : Inference}

/-- Above one half, a key dominates as soon as its share reaches the threshold. -/
theorem dominant?_eq_some_iff (hhalf : 0.5 < inference.threshold) :
    inference.dominant? keys = some k ↔ k ∈ keys ∧ inference.threshold ≤ share (keys.count k) keys.length := by
  refine ⟨of_dominant?, fun ⟨hmem, hshare⟩ => ?_⟩
  cases keys with
  | nil => cases hmem
  | cons first rest =>
    have hbest : mostFrequent (first :: rest) first rest = k := by
      by_contra hne
      have hle := count_le_mostFrequent (first :: rest) first rest k hmem
      have hsum := count_add_count_le hne (first :: rest)
      have hcount : (first :: rest).count k ≠ 0 := (List.count_pos_iff.2 hmem).ne'
      exact not_float_lt_of_le (le_half_of_le_share hcount (by omega) hshare) hhalf
    simp only [Inference.dominant?, hbest]
    exact if_pos hshare

theorem dominant?_perm (hhalf : 0.5 < inference.threshold) (h : keys.Perm keys') :
    inference.dominant? keys = inference.dominant? keys' := by
  ext k
  rw [dominant?_eq_some_iff hhalf, dominant?_eq_some_iff hhalf, h.mem_iff, h.count_eq, h.length_eq]

/-- What dominates at a threshold dominates at a lower one. -/
theorem dominant?_mono (hle : inference.threshold ≤ strict.threshold) (h : strict.dominant? keys = some k) :
    inference.dominant? keys = some k := by
  cases keys with
  | nil => cases h
  | cons first rest =>
    simp only [Inference.dominant?, Option.ite_none_right_eq_some] at h ⊢
    exact ⟨float_le_trans hle h.1, h.2⟩

end

/-! ### Types and schemas -/

namespace Inference

variable {inference strict : Inference} {values values' : List Value}

/-- A higher threshold gives a less specific type. -/
theorem unify_mono (hle : inference.threshold ≤ strict.threshold) (values : List Value) :
    inference.unify values ≤ strict.unify values := by
  induction values using unify_induction strict with
  | step values ih =>
    rw [unify_eq, unify_eq]
    cases hdominant : strict.dominant? (values.map Value.outline) with
    | none => exact ValueType.le_unknown _
    | some o =>
      rw [dominant?_mono hle hdominant]
      cases o with
      | bool | int | float | str => simp only [typeOfOutline, le_refl]
      | tuple n =>
        rw [typeOfOutline, typeOfOutline, ValueType.tuple_le_iff, List.forall₂_map_left_iff,
          List.forall₂_map_right_iff]
        exact List.forall₂_same.2 fun i _ => ih n hdominant i

theorem itemsAt_perm (h : values.Perm values') (n i : Nat) : (itemsAt n i values).Perm (itemsAt n i values') :=
  (h.filterMap _).filterMap _

/-- Above one half, the order of the values does not matter. -/
theorem unify_perm (hhalf : 0.5 < inference.threshold) (values : List Value) :
    ∀ values', values.Perm values' → inference.unify values = inference.unify values' := by
  induction values using unify_induction inference with
  | step values ih =>
    intro values' h
    rw [unify_eq, unify_eq, ← dominant?_perm hhalf (h.map Value.outline)]
    exact typeOfOutline_congr fun n hdominant i => ih n hdominant i _ (itemsAt_perm h n i)

/-- A higher threshold only makes positions unknown, or the whole schema; and above one half, the schema does not depend
on the order of the rows that are looked at. -/
theorem infer_threshold (n : Nat) :
    (∀ (t₁ t₂ : Float) (rows : List Row), t₁ ≤ t₂ → infer ⟨n, t₁⟩ rows ≤ infer ⟨n, t₂⟩ rows) ∧
    ∀ (t : Float) (rows rows' : List Row), 0.5 < t → (rows.take n).Perm (rows'.take n) →
      infer ⟨n, t⟩ rows = infer ⟨n, t⟩ rows' := by
  constructor
  · intro t₁ t₂ rows hle
    rw [← Schema.asType_le_iff, asType_infer, asType_infer]
    simp only [sample]
    exact @unify_mono ⟨n, t₁⟩ ⟨n, t₂⟩ hle _
  · intro t rows rows' hhalf h
    apply Schema.asType_injective
    rw [asType_infer, asType_infer]
    simp only [sample]
    exact @unify_perm ⟨n, t⟩ hhalf _ _ (h.map Value.tuple)

/-- Four rows, of which one has another width. -/
def unevenRows : List Row := [[.int 1, .int 2], [.int 3, .int 4], [.int 5], [.int 6, .int 7]]

theorem infer_threshold_unevenRows :
    infer ⟨4, 0.7⟩ unevenRows ≤ infer ⟨4, 1⟩ unevenRows ∧
      infer ⟨4, 0.7⟩ unevenRows = infer ⟨4, 0.7⟩ unevenRows.reverse :=
  ⟨(infer_threshold 4).1 0.7 1 unevenRows (by decide),
    (infer_threshold 4).2 0.7 unevenRows unevenRows.reverse (by decide) (List.reverse_perm _).symm⟩

end Inference
end Millrace
