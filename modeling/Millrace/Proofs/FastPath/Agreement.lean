import Mathlib.Data.List.Forall2
import Millrace.FastPath.Lowering
import Millrace.Proofs.Lambda.DataFaults

/-!
# Agreement of a fast path with the evaluator

`Agrees excused R fast general` compares the result of a fast path with that of the general evaluator on the same row.
Values correspond by `R`.  When the fast path gives up, the evaluator fails on the data; when the fast path has a
value, the evaluator has one too, or it fails with a fault that is `excused`.  Agreement goes through sequences of
computations (`Agrees.bind`).
-/

namespace Millrace.FastPath

/-- How a result of a fast path goes with a result of the evaluator. -/
inductive Agrees {α β : Type} (excused : Fault → Prop) (R : α → β → Prop) : Except Reason α → RowResult β → Prop
  | value {x : α} {y : β} : R x y → Agrees excused R (.ok x) (.ok y)
  /-- Only the fast path has a value; it stands for some value all the same. -/
  | excused {x : α} {y : β} {e : Fault} :
    R x y → excused e → e.isFatal = false → Agrees excused R (.ok x) (.error e)
  | failure {r : Reason} {e : Fault} :
    r ≠ .nonconforming → e.isFatal = false → Agrees excused R (.error r) (.error e)

/-- A fault that is not fatal has a reason of its own. -/
theorem Reason.ofKind_ne_nonconforming {e : Fault} (h : e.isFatal = false) : ofKind e.kind ≠ nonconforming := by
  unfold Fault.isFatal at h
  cases hk : e.kind <;> simp_all [ofKind, FaultKind.isFatal]

section
variable {excused : Fault → Prop} {α β γ δ : Type} {R : α → β → Prop} {S : γ → δ → Prop}
  {x : Except Reason α} {y : RowResult β}

theorem Agrees.mono {R' : α → β → Prop} (h : Agrees excused R x y) (hR : ∀ a b, x = .ok a → R a b → R' a b) :
    Agrees excused R' x y := by
  cases h with
  | value hab => exact .value (hR _ _ rfl hab)
  | excused hab he hd => exact .excused (hR _ _ rfl hab) he hd
  | failure hr hd => exact .failure hr hd

/-- Agreement of what comes after: the fast path goes on as `z`, and gives up whenever it already has. -/
theorem Agrees.follow {g : β → RowResult δ} {z : Except Reason γ} (h : Agrees excused R x y)
    (hvalue : ∀ a b, x = .ok a → R a b → Agrees excused S z (g b))
    (herror : ∀ r, x = .error r → r ≠ .nonconforming → ∃ r', r' ≠ .nonconforming ∧ z = .error r') :
    Agrees excused S z (y >>= g) := by
  cases h with
  | value hab => exact hvalue _ _ rfl hab
  | @excused a b e hab he hd =>
    have hz := hvalue _ _ rfl hab
    change Agrees excused S z (.error e)
    generalize g b = w at hz
    cases hz with
    | value hcd => exact .excused hcd he hd
    | excused hcd _ _ => exact .excused hcd he hd
    | failure hr _ => exact .failure hr hd
  | failure hr hd =>
    obtain ⟨r', hr', rfl⟩ := herror _ rfl hr
    exact .failure hr' hd

/-- Agreement of two computations in a row. -/
theorem Agrees.bind {f : α → Except Reason γ} {g : β → RowResult δ} (h : Agrees excused R x y)
    (k : ∀ a b, x = .ok a → R a b → Agrees excused S (f a) (g b)) : Agrees excused S (x >>= f) (y >>= g) := by
  refine h.follow (fun a b ha hab => ?_) fun r hr hne => ⟨r, hne, by rw [hr]; rfl⟩
  rw [ha]
  exact k a b ha hab

/-- The evaluator goes on alone, with an operation that cannot fail. -/
theorem Agrees.bind_right {S : α → δ → Prop} {g : β → RowResult δ} (h : Agrees excused R x y)
    (k : ∀ a b, x = .ok a → R a b → ∃ d, g b = .ok d ∧ S a d) : Agrees excused S x (y >>= g) := by
  cases h with
  | @value a b hab =>
    obtain ⟨d, hd, had⟩ := k a b rfl hab
    change Agrees excused S (.ok a) (g b)
    rw [hd]
    exact .value had
  | excused hab he hd =>
    obtain ⟨d, -, had⟩ := k _ _ rfl hab
    exact .excused had he hd
  | failure hr hd => exact .failure hr hd

/-- A function applied on the side of the fast path. -/
theorem agrees_map_left {f : γ → α} {z : Except Reason γ} :
    Agrees excused R (f <$> z) y ↔ Agrees excused (fun c b => R (f c) b) z y := by
  constructor
  · intro h
    cases z with
    | error r =>
      cases h with
      | failure hr hd => exact .failure hr hd
    | ok c =>
      cases h with
      | value hab => exact .value hab
      | excused hab he hd => exact .excused hab he hd
  · intro h
    cases h with
    | value hab => exact .value hab
    | excused hab he hd => exact .excused hab he hd
    | failure hr hd => exact .failure hr hd

/-- A function applied on the side of the evaluator. -/
theorem Agrees.map_right {f : δ → β} {z : RowResult δ} (h : Agrees excused (fun a d => R a (f d)) x z) :
    Agrees excused R x (f <$> z) := by
  cases h with
  | value hab => exact .value hab
  | excused hab he hd => exact .excused hab he hd
  | failure hr hd => exact .failure hr hd

/-- An operation that both sides share. -/
theorem agrees_reduced {z : RowResult α} (h : FailsOnData z) : Agrees excused Eq (reduced z) z := by
  cases z with
  | ok a => exact .value rfl
  | error e => exact .failure (Reason.ofKind_ne_nonconforming (h.isFatal rfl)) (h.isFatal rfl)

/-- When both sides have a value, the values correspond. -/
theorem Agrees.rel {a : α} {b : β} (h : Agrees excused R (.ok a) (.ok b)) : R a b := by
  cases h with
  | value hab => exact hab

theorem Agrees.ne_nonconforming (h : Agrees excused R x y) : x ≠ .error .nonconforming := by
  rintro rfl
  cases h with
  | failure hr _ => exact hr rfl

end

/-! ### Honest expressions -/

namespace Lowered

/-- What is known of a lowered expression is true on a row, and the row does not turn out to be of another schema. -/
structure Reliable (row : Row) (l : Lowered) : Prop where
  infallible : l.infallible = true → ∃ v, l.run row = .ok v
  constant : ∀ v, l.traits.constant = some v → l.run row = .ok v
  conforming : l.run row ≠ .error .nonconforming

mutual

/-- A lowered expression and all items inside it are reliable on a row. -/
def Honest (row : Row) : Lowered → Prop
  | scalar k c traits => Reliable row (scalar k c traits)
  | tuple items traits => Reliable row (tuple items traits) ∧ AllHonest row items

def AllHonest (row : Row) : List Lowered → Prop
  | [] => True
  | l :: rest => Honest row l ∧ AllHonest row rest

end

variable {row : Row}

theorem Honest.reliable {l : Lowered} (h : l.Honest row) : Reliable row l := by
  cases l with
  | scalar k c traits => exact h
  | tuple items traits => exact h.1

theorem allHonest_iff {ls : List Lowered} : AllHonest row ls ↔ ∀ l ∈ ls, l.Honest row := by
  induction ls with
  | nil => simp [AllHonest]
  | cons l rest ih => simp [AllHonest, ih]

/-- An integer that is known beforehand is the integer of the value. -/
theorem run_of_constantInt? {l : Lowered} (h : l.Honest row) {n : Int64} (hn : l.constantInt? = some n) :
    ∃ v, l.run row = .ok v ∧ v.number? = some (.int n) := by
  unfold constantInt? at hn
  split at hn
  · next m hm =>
    cases hn
    exact ⟨_, h.reliable.constant _ hm, rfl⟩
  · next b hb =>
    cases hn
    exact ⟨_, h.reliable.constant _ hb, rfl⟩
  · cases hn

/-! ### Running several lowered expressions -/

theorem runAll_cons (l : Lowered) (rest : List Lowered) :
    runAll (l :: rest) row = (do let v ← l.run row; let vs ← runAll rest row; return v :: vs) := rfl

theorem runAll_eq_ok_iff {ls : List Lowered} {vs : List Value} :
    runAll ls row = .ok vs ↔ List.Forall₂ (fun l v => l.run row = .ok v) ls vs := by
  induction ls generalizing vs with
  | nil =>
    cases vs with
    | nil => simp [runAll, Compute.const]
    | cons v vs => simp [runAll, Compute.const]
  | cons l rest ih =>
    rw [runAll_cons]
    constructor
    · intro h
      cases hl : l.run row with
      | error r => rw [hl] at h; cases h
      | ok v =>
        cases hr : runAll rest row with
        | error r => rw [hl, hr] at h; cases h
        | ok ws =>
          rw [hl, hr] at h
          cases h
          exact .cons hl (ih.1 hr)
    · intro h
      cases h with
      | cons hl hr =>
        rw [hl, ih.2 hr]
        rfl

theorem runAll_append (ls ms : List Lowered) :
    runAll (ls ++ ms) row = (do let vs ← runAll ls row; let ws ← runAll ms row; return vs ++ ws) := by
  induction ls with
  | nil =>
    change runAll ms row = runAll ms row >>= fun ws => .ok ws
    cases runAll ms row <;> rfl
  | cons l rest ih =>
    rw [List.cons_append, runAll_cons, runAll_cons, ih]
    cases l.run row with
    | error r => rfl
    | ok v =>
      cases runAll rest row with
      | error r => rfl
      | ok vs => cases runAll ms row <;> rfl

theorem length_of_runAll {ls : List Lowered} {vs : List Value} (h : runAll ls row = .ok vs) :
    vs.length = ls.length :=
  (runAll_eq_ok_iff.1 h).length_eq.symm

/-- Several expressions have values together exactly if each of them has one. -/
theorem exists_runAll_iff {ls : List Lowered} :
    (∃ vs, runAll ls row = .ok vs) ↔ ∀ l ∈ ls, ∃ v, l.run row = .ok v := by
  constructor
  · rintro ⟨vs, h⟩ l hl
    have h2 := runAll_eq_ok_iff.1 h
    induction h2 with
    | nil => cases hl
    | cons hv hrest ih =>
      rcases List.mem_cons.1 hl with rfl | hl
      · exact ⟨_, hv⟩
      · exact ih (runAll_eq_ok_iff.2 hrest) hl
  · intro h
    induction ls with
    | nil => exact ⟨[], rfl⟩
    | cons l rest ih =>
      obtain ⟨v, hv⟩ := h l (by simp)
      obtain ⟨vs, hvs⟩ := ih fun m hm => h m (by simp [hm])
      exact ⟨v :: vs, by rw [runAll_cons, hv, hvs]; rfl⟩

/-- The value of an item stands in the position of the item. -/
theorem getElem?_of_runAll {ls : List Lowered} {vs : List Value} (h : runAll ls row = .ok vs) {p : Nat} {l : Lowered}
    (hp : ls[p]? = some l) : ∃ v, vs[p]? = some v ∧ l.run row = .ok v := by
  have h2 := runAll_eq_ok_iff.1 h
  clear h
  induction h2 generalizing p with
  | nil => cases hp
  | cons hv hrest ih =>
    cases p with
    | zero => cases hp; exact ⟨_, rfl, hv⟩
    | succ p => exact ih hp

theorem runAll_ne_nonconforming {ls : List Lowered} (h : AllHonest row ls) :
    runAll ls row ≠ .error .nonconforming := by
  induction ls with
  | nil => intro hr; cases hr
  | cons l rest ih =>
    rw [runAll_cons]
    intro hr
    cases hl : l.run row with
    | error r =>
      rw [hl] at hr
      cases hr
      exact h.1.reliable.conforming hl
    | ok v =>
      cases hrest : runAll rest row with
      | error r =>
        rw [hl, hrest] at hr
        cases hr
        exact ih h.2 hrest
      | ok vs => rw [hl, hrest] at hr; cases hr

theorem exists_runAll_of_all {ls : List Lowered} (h : AllHonest row ls) (hall : ls.all infallible = true) :
    ∃ vs, runAll ls row = .ok vs := by
  rw [exists_runAll_iff]
  intro l hl
  exact (allHonest_iff.1 h l hl).reliable.infallible (List.all_eq_true.1 hall l hl)

/-- Of a computed scalar nothing is claimed but that it conforms. -/
theorem honest_computed {k : Scalar} {c : Compute k.Carrier} (h : (computed k c).run row ≠ .error .nonconforming) :
    (computed k c).Honest row :=
  ⟨fun hi => (nomatch hi), fun _ hv => (nomatch hv), h⟩

/-- A tuple that is no constant is honest when its items are and it does not claim too much. -/
theorem honest_tuple {items : List Lowered} {infallible : Bool} (h : AllHonest row items)
    (hinf : infallible = true → ∃ vs, runAll items row = .ok vs) :
    (tuple items ⟨infallible, none⟩).Honest row := by
  refine ⟨⟨fun hi => ?_, fun v hv => (nomatch hv), ?_⟩, h⟩
  · obtain ⟨vs, hvs⟩ := hinf hi
    exact ⟨.tuple vs, by change Value.tuple <$> runAll items row = _; rw [hvs]; rfl⟩
  · change Value.tuple <$> runAll items row ≠ .error .nonconforming
    have hne := runAll_ne_nonconforming h
    cases hr : runAll items row with
    | ok vs => intro hc; cases hc
    | error r =>
      intro hc
      cases hc
      exact hne hr

/-- An infallible tuple has all its items. -/
theorem exists_runAll_of_infallible {items : List Lowered} {traits : Traits} (h : (tuple items traits).Honest row)
    (hinf : traits.infallible = true) : ∃ vs, runAll items row = .ok vs := by
  obtain ⟨v, hv⟩ := h.reliable.infallible hinf
  change Value.tuple <$> runAll items row = .ok v at hv
  cases hr : runAll items row with
  | error r => rw [hr] at hv; cases hv
  | ok vs => exact ⟨vs, rfl⟩

/-- A property of a tuple's shape is computed along with the items, whether they are run or left out. -/
theorem ofShape_eq {α : Type} {items : List Lowered} (h : AllHonest row items) (x : α) :
    ofShape items x row = (fun _ => x) <$> runAll items row := by
  unfold ofShape
  split
  · next hall =>
    obtain ⟨vs, hvs⟩ := exists_runAll_of_all h hall
    rw [hvs]
    rfl
  · change (fun _ => x) <$> ((fun _ => ()) <$> runAll items row) = _
    cases runAll items row <;> rfl

end Lowered
end Millrace.FastPath
