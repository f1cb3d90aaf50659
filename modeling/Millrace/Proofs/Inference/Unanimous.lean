import Millrace.Proofs.Inference.Majority

/-!
# Unanimous inference

At the threshold one a type is accepted only if all values agree, so the guessed type accepts each of them
(`accepts_unify`), and the guessed schema fits all rows that were looked at (`acceptsAll_of_infer`).
-/

namespace Millrace

variable {inference : Inference}

/-! ### Types -/

/-- Types for the positions of a row accept it if each of them accepts the value in its position. -/
theorem acceptsAll_range {n : Nat} {typeAt : Nat → ValueType} {values : List Value} (hlen : values.length = n)
    (h : ∀ i v, values[i]? = some v → (typeAt i).accepts v = true) :
    ValueType.acceptsAll ((List.range n).map typeAt) values = true := by
  subst hlen
  induction values generalizing typeAt with
  | nil => rfl
  | cons v values ih =>
    rw [List.length_cons, List.range_succ_eq_map, List.map_cons, List.map_map, ValueType.acceptsAll, h 0 v rfl,
      Bool.true_and]
    exact ih fun i w hw => h (i + 1) w hw

theorem accepts_of_acceptsAll {types : List ValueType} {values : List Value} {i : Nat} {t : ValueType}
    {v : Value} (h : ValueType.acceptsAll types values = true) (ht : types[i]? = some t) (hv : values[i]? = some v) :
    t.accepts v = true := by
  induction types generalizing values i with
  | nil => cases ht
  | cons t' types ih =>
    cases values with
    | nil => cases hv
    | cons v' values =>
      rw [ValueType.acceptsAll, Bool.and_eq_true] at h
      cases i with
      | zero =>
        cases ht
        cases hv
        exact h.1
      | succ i => exact ih h.2 ht hv

namespace Inference

/-! ### Values -/

theorem mem_columnAt {i : Nat} {lists : List (List Value)} {items : List Value} {v : Value}
    (hitems : items ∈ lists) (hv : items[i]? = some v) : v ∈ columnAt i lists :=
  List.mem_filterMap.2 ⟨items, hitems, hv⟩

theorem length_columnAt_le (i : Nat) (lists : List (List Value)) : (columnAt i lists).length ≤ lists.length :=
  List.length_filterMap_le ..

/-- At the threshold one, all values have the dominant outline. -/
theorem outline_of_dominant? (hone : inference.threshold = 1) {values : List Value}
    (hlen : values.length < 2 ^ 53) {o : Outline}
    (h : inference.dominant? (values.map Value.outline) = some o) : ∀ v ∈ values, v.outline = o := by
  rw [← List.length_map Value.outline] at hlen
  intro v hv
  exact eq_of_dominant? hone hlen h _ (List.mem_map_of_mem hv)

/-- The items of a tuple that has the dominant outline. -/
theorem itemsOfLength?_of_outline {n : Nat} {v : Value} (h : v.outline = .tuple n) :
    ∃ items, v = .tuple items ∧ items.length = n ∧ v.itemsOfLength? n = some items := by
  cases v with
  | tuple items =>
    cases h
    exact ⟨items, rfl, rfl, if_pos rfl⟩
  | bool b | int k | float x | str s => cases h

theorem accepts_unifyWithin (hone : inference.threshold = 1) (bound : Nat) {values : List Value}
    (hlen : values.length < 2 ^ 53) : ∀ v ∈ values, (inference.unifyWithin bound values).accepts v = true := by
  fun_induction unifyWithin inference bound values with
  | case1 values bound h | case2 values bound h | case3 values bound h | case4 values bound h =>
    intro v hv
    have houtline := outline_of_dominant? hone hlen h v hv
    cases v <;> cases houtline
    rfl
  | case5 values bound n h tuples ih =>
    intro v hv
    obtain ⟨items, rfl, hitems, hsome⟩ := itemsOfLength?_of_outline (outline_of_dominant? hone hlen h v hv)
    have hmem : items ∈ tuples := List.mem_filterMap.2 ⟨_, hv, hsome⟩
    have htuples : tuples.length ≤ values.length := List.length_filterMap_le ..
    rw [ValueType.accepts]
    refine acceptsAll_range hitems fun i w hw => ih i ?_ w (mem_columnAt hmem hw)
    have := length_columnAt_le i tuples
    omega
  | case6 => exact fun v _ => by cases v <;> rfl

/-- At the threshold one, the type of values accepts all of them. -/
theorem accepts_unify (hone : inference.threshold = 1) {values : List Value} (hlen : values.length < 2 ^ 53) :
    ∀ v ∈ values, (inference.unify values).accepts v = true :=
  accepts_unifyWithin hone _ hlen

/-! ### Rows -/

/-- At the threshold one, a guessed schema fits all rows of the sample. -/
theorem acceptsAll_of_infer (hone : inference.threshold = 1) {rows : List Row} {types : List ValueType}
    (hlen : rows.length < 2 ^ 53) (h : inference.infer rows = .row types) :
    ∀ row ∈ rows.take inference.sampleSize, ValueType.acceptsAll types row = true := by
  have hsample : (rows.take inference.sampleSize).length ≤ rows.length := List.length_take_le' ..
  unfold infer at h
  dsimp only at h
  split at h
  · cases h
  · next width hwidth =>
    cases h
    intro row hrow
    have hwidths := eq_of_dominant? hone (by rw [List.length_map]; omega) hwidth
    have hcommon : (rows.take inference.sampleSize).filter (·.length = width) =
        rows.take inference.sampleSize :=
      List.filter_eq_self.2 fun r hr => decide_eq_true (hwidths _ (List.mem_map_of_mem hr))
    rw [hcommon]
    refine acceptsAll_range (hwidths _ (List.mem_map_of_mem hrow)) fun i v hv => ?_
    apply accepts_unify hone _ v (mem_columnAt hrow hv)
    have := length_columnAt_le i (rows.take inference.sampleSize)
    omega

end Inference
end Millrace
