import Millrace.Lambda.Operation
import Millrace.Proofs.Number.Order

/-!
# How values stand to each other

Two values are ordered or equal, or they are numbers of which one is nan and stand apart, or they are of kinds that have
no order.  Tuples stand like their first items that are not equal.  Equality and the six comparisons all say how the
values stand (`equals_iff`, `apply_eq`), and seen from the other side the values stand the other way round
(`standing_swap`).  So the comparisons agree with equality and with each other (`comparisons_coherent`).
-/

namespace Millrace

/-- How two values stand to each other. -/
inductive Standing where
  | ordered (o : Ordering)
  /-- One of two numbers is nan. -/
  | apart
  /-- The values are of kinds that are not ordered. -/
  | unordered (left right : Tag)

namespace Standing

/-- How two numbers stand that compare like this. -/
def ofOrder : Option Ordering → Standing
  | some o => .ordered o
  | none => .apart

/-- How the values stand seen from the other side. -/
def swap : Standing → Standing
  | .ordered o => .ordered o.swap
  | .apart => .apart
  | .unordered left right => .unordered right left

/-- Values that stand like their first items, or if these are equal like what follows them. -/
def andThen : Standing → Standing → Standing
  | .ordered .eq, s => s
  | s, _ => s

/-- What a comparison says of values that stand like this. -/
def answer (op : CompareOp) : Standing → RowResult Bool
  | .ordered o => .ok (op.test o)
  | .apart => .ok (op == .ne)
  | .unordered left right =>
    match op with
    | .eq => .ok false
    | .ne => .ok true
    | op => fault (.unordered op left right)

theorem ofOrder_swap (o : Option Ordering) : (ofOrder o).swap = ofOrder (o.map Ordering.swap) := by
  cases o <;> rfl

theorem ofOrder_eq_iff (o : Option Ordering) : (o == some .eq) = true ↔ ofOrder o = .ordered .eq := by
  cases o with
  | none => simp [ofOrder]
  | some o => cases o <;> simp [ofOrder]

theorem andThen_swap (s t : Standing) : (s.andThen t).swap = s.swap.andThen t.swap := by
  cases s with
  | ordered o => cases o <;> rfl
  | apart | unordered => rfl

theorem andThen_eq_iff {s t : Standing} :
    s.andThen t = .ordered .eq ↔ s = .ordered .eq ∧ t = .ordered .eq := by
  cases s with
  | ordered o => cases o <;> simp [andThen]
  | apart | unordered => simp [andThen]

theorem andThen_of_ne {s : Standing} (h : s ≠ .ordered .eq) (t : Standing) : s.andThen t = s := by
  cases s with
  | ordered o =>
    cases o with
    | eq => exact absurd rfl h
    | lt | gt => rfl
  | apart | unordered => rfl

theorem answer_of_ne {s : Standing} (h : s ≠ .ordered .eq) : s.answer .eq = .ok false ∧ s.answer .ne = .ok true := by
  cases s with
  | ordered o =>
    cases o with
    | eq => exact absurd rfl h
    | lt | gt => exact ⟨rfl, rfl⟩
  | apart | unordered => exact ⟨rfl, rfl⟩

end Standing

namespace Value

mutual

/-- How two values stand to each other. -/
def standing : Value → Value → Standing
  | .str x, .str y => .ordered (compare x y)
  | .tuple xs, .tuple ys => standingAll xs ys
  | a, b =>
    match a.number?, b.number? with
    | some x, some y => .ofOrder (x.order y)
    | _, _ => .unordered a.tag b.tag

/-- How two tuples stand to each other: the first items that are not equal decide, and without them the lengths. -/
def standingAll : List Value → List Value → Standing
  | x :: xs, y :: ys => (x.standing y).andThen (standingAll xs ys)
  | xs, ys => .ordered (compare xs.length ys.length)

end

/-! ### Equality and the comparisons -/

mutual

/-- Equality says whether the values stand as equals. -/
theorem equals_iff : (a b : Value) → (a.equals b = true ↔ a.standing b = .ordered .eq)
  | .str x, b => by
    cases b with
    | str y => simp [equals, standing]
    | _ => simp [equals, standing, number?]
  | .tuple xs, b => by
    cases b with
    | tuple ys => simpa only [equals, standing] using equalsAll_iff xs ys
    | _ => simp [equals, standing, number?]
  | .bool _, b | .int _, b | .float _, b => by
    cases b with
    | str y | tuple ys => simp [equals, standing, number?]
    | _ =>
      simp only [equals, standing, number?]
      exact Standing.ofOrder_eq_iff _

theorem equalsAll_iff : (xs ys : List Value) → (equalsAll xs ys = true ↔ standingAll xs ys = .ordered .eq)
  | [], ys => by cases ys <;> simp [equalsAll, standingAll]
  | x :: xs, [] => by simp [equalsAll, standingAll]
  | x :: xs, y :: ys => by
    rw [equalsAll, Bool.and_eq_true, equals_iff x y, equalsAll_iff xs ys, standingAll, Standing.andThen_eq_iff]

end

mutual

/-- Every comparison says how the values stand. -/
theorem apply_eq (op : CompareOp) : (a b : Value) → op.apply a b = (a.standing b).answer op
  | .str x, b => by
    cases b with
    | str y => simp [CompareOp.apply, standing, Standing.answer]
    | _ => cases op <;> rfl
  | .tuple xs, b => by
    cases b with
    | tuple ys => simpa only [CompareOp.apply, standing] using applyAll_eq op xs ys
    | _ => cases op <;> rfl
  | .bool _, b | .int _, b | .float _, b => by
    cases b with
    | str y | tuple ys => cases op <;> rfl
    | _ =>
      simp only [CompareOp.apply, standing, number?, CompareOp.onNumbers]
      cases Number.order _ _ <;> rfl

theorem applyAll_eq (op : CompareOp) : (xs ys : List Value) → op.applyAll xs ys = (standingAll xs ys).answer op
  | [], ys => by simp [CompareOp.applyAll, standingAll, Standing.answer]
  | x :: xs, [] => by simp [CompareOp.applyAll, standingAll, Standing.answer]
  | x :: xs, y :: ys => by
    unfold CompareOp.applyAll
    rw [standingAll]
    by_cases h : x.equals y = true
    · rw [if_pos h, (equals_iff x y).1 h, applyAll_eq op xs ys]
      rfl
    · have hne : x.standing y ≠ .ordered .eq := fun hs => h ((equals_iff x y).2 hs)
      rw [if_neg h, Standing.andThen_of_ne hne]
      cases op with
      | eq => exact (Standing.answer_of_ne hne).1.symm
      | ne => exact (Standing.answer_of_ne hne).2.symm
      | lt | le | gt | ge => exact apply_eq _ x y

end

/-! ### The other side -/

mutual

/-- Seen from the other side, values stand the other way round. -/
theorem standing_swap : (a b : Value) → b.standing a = (a.standing b).swap
  | .str x, b => by
    cases b with
    | str y => exact congrArg Standing.ordered (Std.OrientedCmp.eq_swap)
    | _ => rfl
  | .tuple xs, b => by
    cases b with
    | tuple ys => simpa only [standing] using standingAll_swap xs ys
    | _ => rfl
  | .bool _, b | .int _, b | .float _, b => by
    cases b with
    | str y | tuple ys => rfl
    | _ =>
      simp only [standing, number?, Standing.ofOrder_swap]
      exact congrArg Standing.ofOrder (Number.order_swap _ _)

theorem standingAll_swap : (xs ys : List Value) → standingAll ys xs = (standingAll xs ys).swap
  | [], ys => by
    cases ys <;> exact congrArg Standing.ordered Std.OrientedCmp.eq_swap
  | x :: xs, [] => congrArg Standing.ordered Std.OrientedCmp.eq_swap
  | x :: xs, y :: ys => by
    rw [standingAll, standingAll, Standing.andThen_swap, standing_swap x y, standingAll_swap xs ys]

end

/-! ### The comparisons agree with each other -/

theorem equals_comm (a b : Value) : a.equals b = b.equals a := by
  rw [Bool.eq_iff_iff, equals_iff, equals_iff, standing_swap a b]
  cases a.standing b with
  | ordered o => cases o <;> simp [Standing.swap]
  | apart | unordered => simp [Standing.swap]

/-- The four orders answer, and so that exactly these values are the less and the greater ones. -/
structure Compares (a b : Value) (less greater : Bool) : Prop where
  lt : CompareOp.lt.apply a b = .ok less
  le : CompareOp.le.apply a b = .ok (less || a.equals b)
  gt : CompareOp.gt.apply a b = .ok greater
  ge : CompareOp.ge.apply a b = .ok (greater || a.equals b)
  /-- At most one of less, equal and greater holds. -/
  exclusive : [less, a.equals b, greater].count true ≤ 1

/-- The four orders fail, because of the kinds of the values. -/
def Unordered (a b : Value) : Prop :=
  ∀ op : CompareOp, op ≠ .eq → op ≠ .ne → ∃ e, op.apply a b = .error e ∧ e.kind = .type

theorem compares_of_ordered {a b : Value} {o : Ordering} (h : a.standing b = .ordered o) :
    Compares a b (o == .lt) (o == .gt) := by
  have heq : a.equals b = (o == .eq) := by
    rw [Bool.eq_iff_iff, equals_iff, h, Standing.ordered.injEq, beq_iff_eq]
  refine ⟨?_, ?_, ?_, ?_, ?_⟩
  · rw [apply_eq, h]
    rfl
  · rw [apply_eq, h, heq]
    cases o <;> rfl
  · rw [apply_eq, h]
    rfl
  · rw [apply_eq, h, heq]
    cases o <;> rfl
  · rw [heq]
    cases o <;> decide

theorem compares_of_apart {a b : Value} (h : a.standing b = .apart) : Compares a b false false := by
  have heq : a.equals b = false := by
    rw [Bool.eq_false_iff, ne_eq, equals_iff, h]
    exact Standing.noConfusion
  refine ⟨?_, ?_, ?_, ?_, ?_⟩
  · rw [apply_eq, h]
    rfl
  · rw [apply_eq, h, heq]
    rfl
  · rw [apply_eq, h]
    rfl
  · rw [apply_eq, h, heq]
    rfl
  · rw [heq]
    decide

theorem unordered_of_standing {a b : Value} {left right : Tag} (h : a.standing b = .unordered left right) :
    Unordered a b := by
  intro op heq hne
  rw [apply_eq, h]
  cases op with
  | eq => exact absurd rfl heq
  | ne => exact absurd rfl hne
  | lt | le | gt | ge => exact ⟨_, rfl, rfl⟩

/-- Equality and its negation never fail, and they are the two sides of one answer.  The four orders fail together,
from both sides and for the kinds of the values, or all answer: what is less from one side is greater from the
other, and the weak orders add equality to the strict ones. -/
theorem comparisons_coherent (a b : Value) :
    CompareOp.eq.apply a b = .ok (a.equals b) ∧ CompareOp.ne.apply a b = .ok (!a.equals b) ∧
      a.equals b = b.equals a ∧
      (Unordered a b ∧ Unordered b a ∨ ∃ less greater, Compares a b less greater ∧ Compares b a greater less) := by
  refine ⟨?_, ?_, equals_comm a b, ?_⟩
  · by_cases h : a.equals b = true
    · rw [apply_eq, (equals_iff a b).1 h, h]
      rfl
    · rw [apply_eq, (Standing.answer_of_ne fun hs => h ((equals_iff a b).2 hs)).1, Bool.eq_false_iff.2 h]
  · by_cases h : a.equals b = true
    · rw [apply_eq, (equals_iff a b).1 h, h]
      rfl
    · rw [apply_eq, (Standing.answer_of_ne fun hs => h ((equals_iff a b).2 hs)).2, Bool.eq_false_iff.2 h]
      rfl
  · have hswap := standing_swap a b
    cases h : a.standing b with
    | ordered o =>
      rw [h] at hswap
      have hback := compares_of_ordered hswap
      refine Or.inr ⟨_, _, compares_of_ordered h, ?_⟩
      cases o <;> exact hback
    | apart =>
      rw [h] at hswap
      exact Or.inr ⟨_, _, compares_of_apart h, compares_of_apart hswap⟩
    | unordered left right =>
      rw [h] at hswap
      exact Or.inl ⟨unordered_of_standing h, unordered_of_standing hswap⟩

end Value
end Millrace
