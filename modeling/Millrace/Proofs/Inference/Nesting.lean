import Millrace.Proofs.Inference.Majority
import Millrace.Proofs.Inference.Specificity

/-!
# Nested tuples

Tuples are looked into as deep as they are nested, so any larger bound gives the same type (`unifyWithin_congr`).  A row
is looked at like a tuple of its columns: the schema of a sample is the type of its rows as tuples (`asType_infer`).
-/

namespace Millrace

/-! ### Keys under another name -/

section
variable {α β : Type} [DecidableEq α] [DecidableEq β] {f : α → β}

theorem mostFrequent_map (hf : Function.Injective f) (all : List α) (best : α) (rest : List α) :
    mostFrequent (all.map f) (f best) (rest.map f) = f (mostFrequent all best rest) := by
  induction rest generalizing best with
  | nil => rfl
  | cons k rest ih =>
    rw [List.map_cons, mostFrequent, mostFrequent, List.count_map_of_injective _ f hf,
      List.count_map_of_injective _ f hf, ← ih, apply_ite f]

/-- Which key dominates does not depend on what the keys are called. -/
theorem dominant?_map (inference : Inference) (hf : Function.Injective f) (keys : List α) :
    inference.dominant? (keys.map f) = (inference.dominant? keys).map f := by
  cases keys with
  | nil => rfl
  | cons first rest =>
    have hbest := mostFrequent_map hf (first :: rest) first rest
    rw [List.map_cons] at hbest
    simp only [Inference.dominant?, List.map_cons, hbest, List.length_cons, List.length_map]
    rw [← List.map_cons, List.count_map_of_injective _ f hf, apply_ite (Option.map f)]
    rfl

end

namespace Inference

variable {inference : Inference}

/-! ### Items of tuples -/

/-- The items in a position of the tuples of length `n`. -/
def itemsAt (n i : Nat) (values : List Value) : List Value :=
  columnAt i (values.filterMap (Value.itemsOfLength? n))

theorem mem_itemsAt {n i : Nat} {values : List Value} {w : Value} :
    w ∈ itemsAt n i values ↔ ∃ items, .tuple items ∈ values ∧ items.length = n ∧ items[i]? = some w := by
  rw [itemsAt, columnAt, List.mem_filterMap]
  constructor
  · rintro ⟨items, hitems, hw⟩
    obtain ⟨v, hv, hsome⟩ := List.mem_filterMap.1 hitems
    cases v with
    | tuple own =>
      obtain ⟨hlen, rfl⟩ : own.length = n ∧ own = items := by
        simpa [Value.itemsOfLength?] using hsome
      exact ⟨own, hv, hlen, hw⟩
    | bool | int | float | str => cases hsome
  · rintro ⟨items, hitems, hlen, hw⟩
    exact ⟨items, List.mem_filterMap.2 ⟨_, hitems, if_pos hlen⟩, hw⟩

theorem length_itemsAt_le (n i : Nat) (values : List Value) : (itemsAt n i values).length ≤ values.length :=
  (List.length_filterMap_le ..).trans (List.length_filterMap_le ..)

/-! ### Depths -/

section
variable {values : List Value} {n i b b' : Nat}

theorem depthAll_le_iff : depthAll values ≤ b ↔ ∀ v ∈ values, depth v ≤ b := by
  induction values with
  | nil => simp [depthAll]
  | cons v values ih => rw [depthAll, Nat.max_le, ih, List.forall_mem_cons]

/-- The items of tuples are nested less deep. -/
theorem depthAll_itemsAt_le (h : depthAll values ≤ b + 1) (n i : Nat) :
    depthAll (itemsAt n i values) ≤ b := by
  rw [depthAll_le_iff] at h ⊢
  intro w hw
  obtain ⟨items, hitems, -, hw⟩ := mem_itemsAt.1 hw
  have hdepth : depthAll items + 1 ≤ b + 1 := h _ hitems
  exact depthAll_le_iff.1 (Nat.le_of_succ_le_succ hdepth) w (List.mem_of_getElem? hw)

/-- Where a tuple dominates, there is one. -/
theorem exists_depth_of_dominant? (h : inference.dominant? (values.map Value.outline) = some (.tuple n))
    (hdepth : depthAll values ≤ b) : ∃ b', b = b' + 1 := by
  obtain ⟨hmem, -⟩ := of_dominant? h
  obtain ⟨v, hv, houtline⟩ := List.mem_map.1 hmem
  have hle := depthAll_le_iff.1 hdepth v hv
  cases v with
  | tuple items => exact Nat.exists_eq_add_of_le' (Nat.le_of_add_left_le hle)
  | bool | int | float | str => cases houtline

end

/-! ### Looking into tuples -/

/-- The type for a dominant outline, with a type for every position of a tuple. -/
def typeOfOutline (itemType : Nat → Nat → ValueType) : Option Outline → ValueType
  | none => .unknown
  | some .bool => .bool
  | some .int => .int
  | some .float => .float
  | some .str => .str
  | some (.tuple n) => .tuple ((List.range n).map (itemType n))

section
variable {values : List Value} {b b' : Nat}

theorem typeOfOutline_congr {f g : Nat → Nat → ValueType} {o : Option Outline}
    (h : ∀ n, o = some (.tuple n) → ∀ i, f n i = g n i) : typeOfOutline f o = typeOfOutline g o := by
  match o with
  | none | some .bool | some .int | some .float | some .str => rfl
  | some (.tuple n) => rw [typeOfOutline, typeOfOutline, funext (h n rfl)]

theorem unifyWithin_eq (h : depthAll values ≤ b) :
    inference.unifyWithin b values =
      typeOfOutline (fun n i => inference.unifyWithin (b - 1) (itemsAt n i values))
        (inference.dominant? (values.map Value.outline)) := by
  rw [unifyWithin.eq_def]
  cases hdominant : inference.dominant? (values.map Value.outline) with
  | none => rfl
  | some o =>
    cases o with
    | bool | int | float | str => rfl
    | tuple n =>
      obtain ⟨b, rfl⟩ := exists_depth_of_dominant? hdominant h
      rfl

/-- It does not matter how deep tuples may be nested, if it is deep enough. -/
theorem unifyWithin_congr (h : depthAll values ≤ b) (h' : depthAll values ≤ b') :
    inference.unifyWithin b values = inference.unifyWithin b' values := by
  induction b generalizing b' values with
  | zero =>
    rw [unifyWithin_eq h, unifyWithin_eq h']
    refine typeOfOutline_congr fun n hdominant i => ?_
    obtain ⟨b, hb⟩ := exists_depth_of_dominant? hdominant h
    cases hb
  | succ b ih =>
    rw [unifyWithin_eq h, unifyWithin_eq h']
    refine typeOfOutline_congr fun n hdominant i => ?_
    obtain ⟨b', rfl⟩ := exists_depth_of_dominant? hdominant h'
    exact ih (depthAll_itemsAt_le h n i) (depthAll_itemsAt_le h' n i)

/-- The type of several values is that of their dominant outline, and tuples are looked into item by item. -/
theorem unify_eq (inference : Inference) (values : List Value) :
    inference.unify values =
      typeOfOutline (fun n i => inference.unify (itemsAt n i values))
        (inference.dominant? (values.map Value.outline)) := by
  rw [unify, unifyWithin_eq le_rfl]
  refine typeOfOutline_congr fun n hdominant i => ?_
  obtain ⟨b, hb⟩ := exists_depth_of_dominant? hdominant le_rfl
  rw [hb, Nat.add_sub_cancel]
  exact unifyWithin_congr (depthAll_itemsAt_le hb.le n i) le_rfl

/-- What holds of values as soon as it holds of the items of their tuples, if these dominate, holds of all values. -/
theorem unify_induction (inference : Inference) {P : List Value → Prop}
    (step : ∀ values, (∀ n, inference.dominant? (values.map Value.outline) = some (.tuple n) →
      ∀ i, P (itemsAt n i values)) → P values) (values : List Value) : P values := by
  induction hdepth : depthAll values using Nat.strong_induction_on generalizing values with
  | h depth ih =>
    subst hdepth
    refine step values fun n hdominant i => ih _ ?_ _ rfl
    obtain ⟨b, hb⟩ := exists_depth_of_dominant? hdominant le_rfl
    rw [hb]
    exact Nat.lt_succ_of_le (depthAll_itemsAt_le hb.le n i)

end

/-! ### Rows as tuples -/

theorem itemsAt_tuples (width i : Nat) (rows : List Row) :
    itemsAt width i (rows.map Value.tuple) = columnAt i (rows.filter (·.length = width)) := by
  have hitems : (rows.map Value.tuple).filterMap (Value.itemsOfLength? width) = rows.filter (·.length = width) := by
    rw [List.filterMap_map, ← List.filterMap_eq_filter]
    refine List.filterMap_congr fun row _ => ?_
    simp [Value.itemsOfLength?, Option.guard]
  rw [itemsAt, hitems]

/-- The rows that are looked at. -/
def sample (inference : Inference) (rows : List Row) : List Row := rows.take inference.sampleSize

theorem infer_eq (inference : Inference) (rows : List Row) :
    inference.infer rows =
      ((inference.dominant? ((inference.sample rows).map List.length)).map fun width =>
        Schema.row ((List.range width).map fun i =>
          inference.unify (columnAt i ((inference.sample rows).filter (·.length = width))))).getD .unspecialized := by
  rw [infer, sample]
  cases inference.dominant? ((rows.take inference.sampleSize).map List.length) <;> rfl

/-- The schema of a sample is the type of its rows as tuples. -/
theorem asType_infer (inference : Inference) (rows : List Row) :
    (inference.infer rows).asType = inference.unify ((inference.sample rows).map Value.tuple) := by
  have hwidths : ((inference.sample rows).map Value.tuple).map Value.outline =
      ((inference.sample rows).map List.length).map Outline.tuple := by
    rw [List.map_map, List.map_map]
    rfl
  rw [unify_eq, hwidths, dominant?_map inference fun _ _ => Outline.tuple.inj, infer_eq]
  simp only [itemsAt_tuples]
  cases inference.dominant? ((inference.sample rows).map List.length) <;> rfl

end Inference
end Millrace
