import Millrace.Proofs.Inference.Nesting
import Millrace.Proofs.Inference.Unanimous

/-!
# The most specific common schema

At the threshold one, the type of some values is the least upper bound of their own types (`unify_le_iff`), since only an
unknown type is above values of different outlines.  Hence the schema of a sample is the most specific one that its rows
have in common (`infer_isLUB`).
-/

namespace Millrace

/-! ### Types of values -/

section
variable {v w : Value} {t u : ValueType}

/-- Only an unknown type is above values of different outlines. -/
theorem outline_eq_of_le (hv : v.type ≤ t) (hw : w.type ≤ t) (ht : t ≠ .unknown) : v.outline = w.outline := by
  cases t with
  | unknown => exact absurd rfl ht
  | tuple types =>
    cases v with
    | tuple items =>
      cases w with
      | tuple items' =>
        have hlen := (ValueType.tuple_le_iff.1 hv).length_eq.trans (ValueType.tuple_le_iff.1 hw).length_eq.symm
        rw [Value.types_eq_map, Value.types_eq_map, List.length_map, List.length_map] at hlen
        rw [Value.outline, Value.outline, hlen]
      | _ => cases hw
    | _ => cases hv
  | _ =>
    cases v <;> cases hv
    cases w <;> cases hw
    rfl

theorem length_eq_of_le {items : List Value} {types : List ValueType}
    (h : (Value.tuple items).type ≤ .tuple types) : types.length = items.length := by
  have hlen := (ValueType.tuple_le_iff.1 h).length_eq
  rw [Value.types_eq_map, List.length_map] at hlen
  exact hlen.symm

theorem le_of_tuple_le {items : List Value} {types : List ValueType} {i : Nat}
    (h : (Value.tuple items).type ≤ .tuple types) (hw : items[i]? = some w) (hu : types[i]? = some u) :
    w.type ≤ u := by
  have hall : ValueType.acceptsAll types items = true := ValueType.accepts_iff.2 h
  exact ValueType.accepts_iff.1 (accepts_of_acceptsAll hall hu hw)

end

namespace Inference

variable {inference : Inference}

/-! ### Types of several values -/

section
variable {values : List Value} {t : ValueType}

/-- The type of values is below every type that is above all of them. -/
theorem unify_le (hone : inference.threshold = 1) (values : List Value) : values.length < 2 ^ 53 → values ≠ [] →
    ∀ t, (∀ v ∈ values, v.type ≤ t) → inference.unify values ≤ t := by
  induction values using unify_induction inference with
  | step values ih =>
    intro hlen hne t ht
    by_cases hunknown : t = .unknown
    · exact hunknown ▸ ValueType.le_unknown _
    · obtain ⟨v, hv⟩ := List.exists_mem_of_ne_nil values hne
      have hdominant : inference.dominant? (values.map Value.outline) = some v.outline := by
        refine dominant?_of_unanimous hone (by rwa [List.length_map]) (by simpa using hne) fun o ho => ?_
        obtain ⟨w, hw, rfl⟩ := List.mem_map.1 ho
        exact outline_eq_of_le (ht w hw) (ht v hv) hunknown
      rw [unify_eq, hdominant]
      have hle := ht v hv
      cases v with
      | bool b | int n | float x | str s => exact hle
      | tuple items =>
        cases t with
        | unknown => exact absurd rfl hunknown
        | tuple types =>
          have htypes := length_eq_of_le hle
          refine ValueType.tuple_range_le htypes fun i u hu => ih _ hdominant i ?_ ?_ u fun w hw => ?_
          · exact (length_itemsAt_le ..).trans_lt hlen
          · obtain ⟨hi, -⟩ := List.getElem?_eq_some_iff.1 hu
            rw [htypes] at hi
            exact List.ne_nil_of_mem (mem_itemsAt.2 ⟨items, hv, rfl, List.getElem?_eq_getElem hi⟩)
          · obtain ⟨own, hown, -, hw⟩ := mem_itemsAt.1 hw
            exact le_of_tuple_le (ht _ hown) hw hu
        | _ => cases hle

/-- At the threshold one, the type of values is the least one above them. -/
theorem unify_le_iff (hone : inference.threshold = 1) (hlen : values.length < 2 ^ 53) (hne : values ≠ []) :
    inference.unify values ≤ t ↔ ∀ v ∈ values, v.type ≤ t :=
  ⟨fun h v hv => (ValueType.accepts_iff.1 (accepts_unify hone hlen v hv)).trans h, unify_le hone values hlen hne t⟩

end

/-! ### Schemas of samples -/

section
variable {rows : List Row} {s t : Schema}

theorem infer_le_iff (hone : inference.threshold = 1) (hlen : (inference.sample rows).length < 2 ^ 53)
    (hne : inference.sample rows ≠ []) :
    inference.infer rows ≤ s ↔ ∀ row ∈ inference.sample rows, .ofRow row ≤ s := by
  rw [← Schema.asType_le_iff, asType_infer, unify_le_iff hone (by rwa [List.length_map]) (by simpa using hne),
    List.forall_mem_map]
  rfl

/-- Rows below a schema have its width. -/
theorem length_eq_of_ofRow_le {row row' : Row} (hs : s ≠ .unspecialized) (h : .ofRow row ≤ s)
    (h' : .ofRow row' ≤ s) : row.length = row'.length := by
  cases s with
  | unspecialized => exact absurd rfl hs
  | row columns => exact (length_eq_of_le h).symm.trans (length_eq_of_le h')

/-- No schema is inferred for no rows, and for rows of different widths. -/
theorem infer_eq_unspecialized_iff (hone : inference.threshold = 1) (hlen : (inference.sample rows).length < 2 ^ 53) :
    inference.infer rows = .unspecialized ↔ inference.sample rows = [] ∨
      ∃ row ∈ inference.sample rows, ∃ row' ∈ inference.sample rows, row.length ≠ row'.length := by
  by_cases hempty : inference.sample rows = []
  · simp only [hempty, true_or, iff_true]
    rw [infer_eq, hempty]
    rfl
  · have hbelow := (infer_le_iff hone hlen hempty).1 le_rfl
    obtain ⟨first, hfirst⟩ := List.exists_mem_of_ne_nil _ hempty
    simp only [hempty, false_or]
    constructor
    · intro hnone
      by_contra hsame
      push Not at hsame
      have hdominant : inference.dominant? ((inference.sample rows).map List.length) = some first.length := by
        refine dominant?_of_unanimous hone (by rwa [List.length_map]) (by simpa using hempty) ?_
        exact List.forall_mem_map.2 fun row hrow => hsame row hrow first hfirst
      rw [infer_eq, hdominant] at hnone
      cases hnone
    · rintro ⟨row, hrow, row', hrow', hne⟩
      by_contra hsome
      exact hne (length_eq_of_ofRow_le hsome (hbelow row hrow) (hbelow row' hrow'))

theorem foldl_sup_le_iff (rows : List Row) :
    rows.foldl (fun s row => s ⊔ .ofRow row) s ≤ t ↔ s ≤ t ∧ ∀ row ∈ rows, .ofRow row ≤ t := by
  induction rows generalizing s with
  | nil => simp
  | cons row rows ih => rw [List.foldl_cons, ih, sup_le_iff, List.forall_mem_cons, and_assoc]

/-- At the threshold one, the schema of a sample is the join of the schemas of its rows, and there is none if the sample
is empty or its rows differ in width.  Hence a schema fits all rows of the sample, and none that fits them is more
specific. -/
theorem infer_isLUB (hone : inference.threshold = 1) (hlen : (inference.sample rows).length < 2 ^ 53) :
    (inference.infer rows = .unspecialized ↔ inference.sample rows = [] ∨
      ∃ row ∈ inference.sample rows, ∃ row' ∈ inference.sample rows, row.length ≠ row'.length) ∧
    (∀ first others, inference.sample rows = first :: others →
      inference.infer rows = others.foldl (fun s row => s ⊔ .ofRow row) (.ofRow first)) ∧
    (inference.sample rows ≠ [] →
      IsLUB {s | ∃ row ∈ inference.sample rows, .ofRow row = s} (inference.infer rows)) ∧
    (inference.infer rows ≠ .unspecialized →
      ∀ row ∈ inference.sample rows, (inference.infer rows).conforms row = true) ∧
    (inference.sample rows ≠ [] →
      ∀ s : Schema, (∀ row ∈ inference.sample rows, s.conforms row = true) → ¬ s < inference.infer rows) := by
  have hunspecialized := infer_eq_unspecialized_iff hone hlen
  refine ⟨hunspecialized, fun first others hsample => ?_, fun hne => ?_, fun hsome row hrow => ?_,
    fun hne s hs hless => ?_⟩
  · refine eq_of_forall_ge_iff fun s => ?_
    rw [infer_le_iff hone hlen (by rw [hsample]; exact List.cons_ne_nil _ _), foldl_sup_le_iff, hsample,
      List.forall_mem_cons]
  · rw [isLUB_iff_le_iff]
    intro s
    rw [infer_le_iff hone hlen hne]
    exact ⟨fun h _ ⟨row, hrow, hs⟩ => hs ▸ h row hrow, fun h row hrow => h ⟨row, hrow, rfl⟩⟩
  · have hne : inference.sample rows ≠ [] := fun hempty => hsome (hunspecialized.2 (.inl hempty))
    exact Schema.conforms_iff.2 ⟨hsome, (infer_le_iff hone hlen hne).1 le_rfl row hrow⟩
  · have hle : inference.infer rows ≤ s :=
      (infer_le_iff hone hlen hne).2 fun row hrow => (Schema.conforms_iff.1 (hs row hrow)).2
    exact hless.not_ge hle

/-- Two rows with nested tuples, and a third one of another width. -/
def nestedRows : List Row :=
  [[.tuple [.int 1, .tuple [.str "a"]], .str "b"], [.tuple [.int 2, .tuple [.bool true]], .str "c"], [.int 3]]

theorem infer_isLUB_nestedRows :
    infer ⟨2, 1⟩ nestedRows = .row [.tuple [.int, .tuple [.unknown]], .str] ∧
      (∀ row ∈ sample ⟨2, 1⟩ nestedRows, (infer ⟨2, 1⟩ nestedRows).conforms row = true) ∧
      infer ⟨3, 1⟩ nestedRows = .unspecialized := by
  obtain ⟨-, hjoin, -, hfits, -⟩ := @infer_isLUB ⟨2, 1⟩ nestedRows rfl (by decide)
  have hschema : infer ⟨2, 1⟩ nestedRows = .row [.tuple [.int, .tuple [.unknown]], .str] := hjoin _ _ rfl
  obtain ⟨hnone, -⟩ := @infer_isLUB ⟨3, 1⟩ nestedRows rfl (by decide)
  refine ⟨hschema, hfits (by rw [hschema]; exact nofun), hnone.2 (.inr ?_)⟩
  exact ⟨_, List.mem_cons_self .., [.int 3], List.mem_of_getElem? (show _[2]? = _ from rfl), by decide⟩

end
end Inference
end Millrace
