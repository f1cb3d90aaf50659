import Millrace.Inference
import Millrace.Proofs.Number.Arithmetic

/-!
# Shares and majorities

The share of a count is a rounded quotient, but rounding does not make a whole of a part: as long as the total is below
`2 ^ 53`, the share is one only if nothing is missing (`one_le_share_iff`).  So at the threshold one a dominant key is
the only one (`eq_of_dominant?`).
-/

namespace Millrace

section
variable {count total : Nat}

/-- The share is the rounded quotient of the two numbers. -/
theorem denotes_share (hcount : 0 < count) (hle : count ≤ total) (htotal : total < 2 ^ 53) :
    ∃ w, Denotes (share count total) w ∧ Rounded ((count : ℚ) / total) w := by
  have hpos : (0 : ℚ) < total := Nat.cast_pos.2 (hcount.trans_le hle)
  have hone : (1 : ℚ) ≤ count := Nat.one_le_cast.2 hcount
  have hcounts : (count : ℚ) ≤ total := Nat.cast_le.2 hle
  have htotals : (total : ℚ) ≤ 2 ^ 53 := by exact_mod_cast htotal.le
  have hrange : InRange ((count : ℚ) / total) := by
    apply inRange_of_le
    · rw [le_div_iff₀ hpos, dyadic]
      norm_num
      linarith
    · have hquotient : (count : ℚ) / total ≤ 1 := (div_le_one hpos).2 hcounts
      rw [dyadic]
      norm_num
      linarith
  have hnumerator := denotes_ofNat hcount (hle.trans_lt htotal)
  have hdenominator := denotes_ofNat (hcount.trans_le hle) htotal
  exact denotes_div hnumerator hdenominator hrange

/-- The share of a part is not one, although it is rounded. -/
theorem one_le_share_iff (hcount : 0 < count) (hle : count ≤ total) (htotal : total < 2 ^ 53) :
    1 ≤ share count total ↔ count = total := by
  obtain ⟨w, hw, hrounded⟩ := denotes_share hcount hle htotal
  have hpos : (0 : ℚ) < total := Nat.cast_pos.2 (hcount.trans_le hle)
  have hone : Denotes (1 : Float) (1 : Nat) := denotes_ofNat Nat.one_pos (by decide)
  rw [hone.le_iff hw, Nat.cast_one]
  constructor
  · intro hwhole
    by_contra hne
    -- a part is not above the float before one
    have hbelow : (count : ℚ) / total ≤ dyadic (2 ^ 53 - 1) (-53) := by
      have hsucc : (count : ℚ) + 1 ≤ total := by exact_mod_cast Nat.lt_of_le_of_ne hle hne
      have htotals : (total : ℚ) ≤ 2 ^ 53 := by exact_mod_cast htotal.le
      rw [div_le_iff₀ hpos, dyadic]
      norm_num
      linarith
    have hround : w ≤ dyadic (2 ^ 53 - 1) (-53) := (hrounded _ _ (by decide) (by decide)).2 hbelow
    have hless : dyadic (2 ^ 53 - 1) (-53) < 1 := by
      rw [dyadic]
      norm_num
    linarith
  · rintro rfl
    have hself := (hrounded 1 0 (by decide) (by decide)).1
    rw [dyadic_zero, Nat.cast_one, div_self hpos.ne'] at hself
    exact hself le_rfl

end

/-! ### Dominant keys -/

section
variable {α : Type} [DecidableEq α] {keys : List α} {best : α}

theorem mostFrequent_mem (all : List α) (best : α) (rest : List α) :
    mostFrequent all best rest ∈ best :: rest := by
  induction rest generalizing best with
  | nil => exact List.mem_cons_self ..
  | cons k rest ih =>
    have hmem := ih (if all.count best < all.count k then k else best)
    rw [mostFrequent]
    rcases List.mem_cons.1 hmem with hhead | hrest
    · rw [hhead]
      split
      · exact List.mem_cons_of_mem _ (List.mem_cons_self ..)
      · exact List.mem_cons_self ..
    · exact List.mem_cons_of_mem _ (List.mem_cons_of_mem _ hrest)

/-- A dominant key is one of the keys, and its share reaches the threshold. -/
theorem of_dominant? {inference : Inference} (h : inference.dominant? keys = some best) :
    best ∈ keys ∧ inference.threshold ≤ share (keys.count best) keys.length := by
  unfold Inference.dominant? at h
  split at h
  · cases h
  · next first rest =>
    dsimp only at h
    split at h
    · next hshare =>
      cases h
      exact ⟨mostFrequent_mem _ first rest, hshare⟩
    · cases h

/-- At the threshold one, a dominant key is the only one. -/
theorem eq_of_dominant? {inference : Inference} (hone : inference.threshold = 1) (hlen : keys.length < 2 ^ 53)
    (h : inference.dominant? keys = some best) : ∀ k ∈ keys, k = best := by
  obtain ⟨hmem, hshare⟩ := of_dominant? h
  rw [hone, one_le_share_iff (List.count_pos_iff.2 hmem) List.count_le_length hlen] at hshare
  exact fun k hk => (List.count_eq_length.1 hshare k hk).symm

/-- At the threshold one, the only key there is dominates. -/
theorem dominant?_of_unanimous {inference : Inference} (hone : inference.threshold = 1) (hlen : keys.length < 2 ^ 53)
    (hne : keys ≠ []) (h : ∀ k ∈ keys, k = best) : inference.dominant? keys = some best := by
  cases keys with
  | nil => exact absurd rfl hne
  | cons first rest =>
    have hbest : mostFrequent (first :: rest) first rest = best := h _ (mostFrequent_mem _ first rest)
    have hcount : (first :: rest).count best = (first :: rest).length :=
      List.count_eq_length.2 fun k hk => (h k hk).symm
    have hshare : inference.threshold ≤ share ((first :: rest).count best) (first :: rest).length := by
      rw [hone, one_le_share_iff (hcount ▸ Nat.succ_pos _) hcount.le hlen, hcount]
    simp only [Inference.dominant?, hbest]
    exact if_pos hshare

end
end Millrace
