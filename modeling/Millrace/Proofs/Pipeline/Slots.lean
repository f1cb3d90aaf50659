import Mathlib.Data.List.Nodup
import Mathlib.Data.List.Perm.Basic
import Millrace.Pipeline.Run

/-!
# Slots

The rows that come out of the batches of a stage are put into slots while the batches are joined.  No two batches have
the same slot (`nodup_plan`), so it does not matter in which order they are joined (`foldl_absorb_perm`).  When all of
them are done, the slots hold their rows in the order of the plan (`fill_plan`), whoever was first.
-/

namespace Millrace

/-- Takes in the result of a batch, as far as the slots are concerned. -/
def Slots.absorb (slots : Slots) : Slot × BatchResult → Slots
  | (slot, .done output _) => slots.put slot output
  | (_, .failed _ _) | (_, .abandoned) => slots

theorem foldl_absorb_slots (joined : List (Slot × BatchResult)) (p : Progress) :
    (joined.foldl Progress.absorb p).slots = joined.foldl Slots.absorb p.slots := by
  induction joined generalizing p with
  | nil => rfl
  | cons x joined ih =>
    obtain ⟨slot, r⟩ := x
    rw [List.foldl_cons, List.foldl_cons, ih]
    congr 1
    cases r with
    | done output tally => rfl
    | abandoned => rfl
    | failed q e =>
      simp only [Progress.absorb]
      split <;> rfl

/-! ### The order of joining -/

namespace Slots

variable {joined results : List (Slot × BatchResult)}

/-- Writes to different slots can change places. -/
theorem put_comm {a b : Slot} (h : a ≠ b) (slots : Slots) (xs ys : List Row) :
    (slots.put a xs).put b ys = (slots.put b ys).put a xs := by
  obtain ⟨p, i⟩ := a
  obtain ⟨q, j⟩ := b
  unfold put
  dsimp only
  by_cases hp : p = q
  · subst hp
    have hij : i ≠ j := fun hij => h (congrArg _ hij)
    rw [List.modify_modify_eq, List.modify_modify_eq]
    congr 1
    funext batches
    exact List.set_comm _ _ hij
  · exact List.modify_modify_ne _ _ slots hp

theorem absorb_comm {x y : Slot × BatchResult} (h : x.1 ≠ y.1) (slots : Slots) :
    (slots.absorb x).absorb y = (slots.absorb y).absorb x := by
  obtain ⟨a, r⟩ := x
  obtain ⟨b, r'⟩ := y
  cases r with
  | failed q e | abandoned => rfl
  | done output tally =>
    cases r' with
    | failed q e | abandoned => rfl
    | done output' tally' => exact put_comm h slots output output'

/-- Results with different slots can be taken in in any order. -/
theorem foldl_absorb_perm (hjoin : joined.Perm results) (hnodup : (results.map (·.1)).Nodup) (slots : Slots) :
    joined.foldl absorb slots = results.foldl absorb slots := by
  refine hjoin.foldl_eq' (fun x hx y hy slots => ?_) slots
  by_cases hslot : x.1 = y.1
  · rw [List.inj_on_of_nodup_map hnodup (hjoin.mem_iff.1 hx) (hjoin.mem_iff.1 hy) hslot]
  · exact absorb_comm hslot slots

end Slots

/-! ### The slots of a plan -/

theorem slots_ofPieces (slot : Slot) (position : Nat) (pieces : List (List Row)) :
    (Batch.ofPieces slot position pieces).map (·.slot) =
      (List.range' slot.batch pieces.length).map (Slot.mk slot.partition) := by
  induction pieces generalizing slot position with
  | nil => rfl
  | cons rows pieces ih =>
    rw [Batch.ofPieces, List.map_cons, ih, List.length_cons, List.range'_succ, List.map_cons]

theorem le_partition_of_plan (size index position : Nat) (shares : List Share) :
    ∀ x ∈ plan size index position shares, index ≤ x.2.slot.partition := by
  induction shares generalizing index position with
  | nil => exact fun x hx => (nomatch hx)
  | cons share shares ih =>
    intro x hx
    rcases List.mem_append.1 hx with hx | hx
    · obtain ⟨b, hb, rfl⟩ := List.mem_map.1 hx
      have hslot : b.slot ∈ (Batch.ofPieces ⟨index, 0⟩ position (share.2.batches size)).map (·.slot) :=
        List.mem_map_of_mem hb
      rw [slots_ofPieces] at hslot
      obtain ⟨i, -, hi⟩ := List.mem_map.1 hslot
      exact Nat.le_of_eq (congrArg Slot.partition hi)
    · exact Nat.le_of_succ_le (ih _ _ x hx)

/-- No two batches of a plan have the same slot. -/
theorem nodup_plan (size index position : Nat) (shares : List Share) :
    ((plan size index position shares).map (·.2.slot)).Nodup := by
  induction shares generalizing index position with
  | nil => exact List.nodup_nil
  | cons share shares ih =>
    have hfirst : (((Batch.ofPieces ⟨index, 0⟩ position (share.2.batches size)).map (share.1, ·)).map (·.2.slot)) =
        (List.range' 0 (share.2.batches size).length).map (Slot.mk index) := by
      rw [List.map_map, ← slots_ofPieces ⟨index, 0⟩ position]
      rfl
    rw [plan, List.map_append, hfirst]
    refine List.nodup_append.2 ⟨?_, ih _ _, fun a ha b hb => ?_⟩
    · exact (List.nodup_range' 1).map fun i j hij => congrArg Slot.batch hij
    · obtain ⟨i, -, rfl⟩ := List.mem_map.1 ha
      obtain ⟨x, hx, rfl⟩ := List.mem_map.1 hb
      have hlater := le_partition_of_plan _ _ _ shares x hx
      intro heq
      rw [← heq] at hlater
      exact Nat.not_succ_le_self index hlater

/-! ### Filled slots -/

section
variable (o : Option FastPath.Compiled → List Row → List Row) (t : Option FastPath.Compiled × Batch → Tally)

/-- The result of a batch that is done, where `o` tells its rows and `t` its tally. -/
def doneWith (x : Option FastPath.Compiled × Batch) : Slot × BatchResult :=
  (x.2.slot, .done (o x.1 x.2.pending) (t x))

theorem modify_length {α : Type} (before : List α) (x : α) (after : List α) (f : α → α) :
    (before ++ x :: after).modify before.length f = before ++ f x :: after := by
  rw [List.modify_eq_set_getElem?, List.getElem?_append_right (Nat.le_refl _), Nat.sub_self]
  change (before ++ x :: after).set before.length (f x) = _
  rw [List.set_append_right _ _ (Nat.le_refl _), Nat.sub_self]
  rfl

/-- The batches of a partition fill its slots from left to right. -/
theorem fill_pieces (before after : Slots) (filled : List (Option (List Row))) (compiled : Option FastPath.Compiled)
    (position : Nat) (pieces : List (List Row)) :
    (((Batch.ofPieces ⟨before.length, filled.length⟩ position pieces).map (compiled, ·)).map (doneWith o t)).foldl
        Slots.absorb (before ++ (filled ++ pieces.map fun _ => none) :: after) =
      before ++ (filled ++ pieces.map fun rows => some (o compiled rows)) :: after := by
  induction pieces generalizing filled position with
  | nil => rfl
  | cons rows pieces ih =>
    have hput : Slots.put (before ++ (filled ++ none :: pieces.map fun _ => none) :: after)
          ⟨before.length, filled.length⟩ (o compiled rows) =
        before ++ ((filled ++ [some (o compiled rows)]) ++ pieces.map fun _ => none) :: after := by
      rw [Slots.put, modify_length, List.set_append_right _ _ (Nat.le_refl _), Nat.sub_self, List.set_cons_zero,
        List.append_assoc]
      rfl
    have hrest := ih (filled ++ [some (o compiled rows)]) (position + rows.length)
    rw [List.length_append] at hrest
    rw [Batch.ofPieces, List.map_cons, List.map_cons, List.map_cons, List.foldl_cons]
    change List.foldl Slots.absorb (Slots.put _ _ _) _ = _
    rw [hput]
    refine hrest.trans ?_
    rw [List.append_assoc]
    rfl

/-- When all batches of a plan are done, the slots hold their rows in the order of the plan. -/
theorem fill_plan (before : Slots) (size position : Nat) (shares : List Share) :
    ((plan size before.length position shares).map (doneWith o t)).foldl Slots.absorb
        (before ++ Slots.empty size shares) =
      before ++ shares.map fun x => (x.2.batches size).map fun rows => some (o x.1 rows) := by
  induction shares generalizing before position with
  | nil => rfl
  | cons share shares ih =>
    obtain ⟨compiled, rows⟩ := share
    have hfirst := fill_pieces o t before (Slots.empty size shares) [] compiled position (rows.batches size)
    have hrest := ih (before ++ [(rows.batches size).map fun rows => some (o compiled rows)])
      (position + (rows.batches size).flatten.length)
    rw [List.length_append, List.append_assoc, List.append_assoc] at hrest
    rw [plan, List.map_append, List.foldl_append]
    exact (congrArg (List.foldl Slots.absorb · _) hfirst).trans hrest

theorem collect?_of_filled (xss : List (List (List Row))) :
    Slots.collect? (xss.map fun xs => xs.map some) = some (xss.map List.flatten) := by
  have hbatches (xs : List (List Row)) : (xs.map some).mapM id = some xs := by
    induction xs with
    | nil => rfl
    | cons rows xs ih =>
      rw [List.map_cons, List.mapM_cons, ih]
      rfl
  rw [Slots.collect?]
  induction xss with
  | nil => rfl
  | cons xs xss ih =>
    rw [List.map_cons, List.mapM_cons, hbatches, ih]
    rfl

end
end Millrace
