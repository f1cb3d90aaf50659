import Mathlib.Data.List.Basic
import Mathlib.Algebra.BigOperators.Group.List.Basic
import Millrace.Pipeline.RowState
import Millrace.Proofs.Pipeline.Tally

/-!
# Sweeps

The plain reading of a stage: its rows are worked on one after the other, up to the first that fails
(`Stage.sweep`).  Every row comes with the fast path that is tried on it, if any.  A sweep has a result if no row
fails, and then it is put together of what the rows give (`sweep_eq_ok_iff`); else its failure is that of the first
row that fails (`sweep_eq_error_iff`).
-/

namespace Millrace

/-- A row, with the fast path that is tried on it. -/
abbrev Trial := Option FastPath.Compiled × Row

namespace Stage

/-- The fault with which a row ends the stage. -/
def faultOf? (s : Stage) (x : Trial) : Option Fault :=
  match (s.process x.1 x.2).1 with
  | .ok _ => none
  | .error e => some e

/-- The rows that come out for a row. -/
def outputOf (s : Stage) (x : Trial) : List Row :=
  match (s.process x.1 x.2).1 with
  | .ok kept => kept.toList
  | .error _ => []

/-- What is counted for a row: itself, the row that comes out, and how it was worked on. -/
def countOf (s : Stage) (x : Trial) : Tally :=
  { (s.process x.1 x.2).2 with rowsIn := 1, rowsOut := (s.outputOf x).length }

/-- Works on rows one after the other, the first of which has the given position.  The first row that fails ends the
sweep, with its position. -/
def sweep (s : Stage) (position : Nat) : List Trial → Except (Nat × Fault) (List Row × Tally)
  | [] => .ok ([], 0)
  | x :: rest =>
    match s.faultOf? x with
    | some e => .error (position, e)
    | none =>
      match s.sweep (position + 1) rest with
      | .error failure => .error failure
      | .ok (out, tally) => .ok (s.outputOf x ++ out, s.countOf x + tally)

variable {s : Stage} {p q : Nat} {e : Fault} {xs ys : List Trial} {x : Trial} {out : List Row} {tally : Tally}

theorem sweep_eq_ok_iff :
    s.sweep p xs = .ok (out, tally) ↔
      (∀ x ∈ xs, s.faultOf? x = none) ∧ out = xs.flatMap s.outputOf ∧ tally = (xs.map s.countOf).sum := by
  induction xs generalizing p out tally with
  | nil =>
    constructor
    · intro h
      cases h
      exact ⟨fun x hx => (nomatch hx), rfl, rfl⟩
    · rintro ⟨-, rfl, rfl⟩
      rfl
  | cons x xs ih =>
    rw [sweep, List.forall_mem_cons, List.flatMap_cons, List.map_cons, List.sum_cons]
    cases hx : s.faultOf? x with
    | some e =>
      constructor
      · intro h
        cases h
      · intro h
        cases h.1.1
    | none =>
      constructor
      · intro h
        cases hs : s.sweep (p + 1) xs with
        | error failure =>
          rw [hs] at h
          cases h
        | ok r =>
          obtain ⟨o, t⟩ := r
          rw [hs] at h
          cases h
          obtain ⟨hnone, ho, ht⟩ := ih.1 hs
          exact ⟨⟨rfl, hnone⟩, by rw [ho], by rw [ht]⟩
      · rintro ⟨⟨-, hnone⟩, rfl, rfl⟩
        rw [ih.2 ⟨hnone, rfl, rfl⟩]

theorem sweep_of_ok (h : ∀ x ∈ xs, s.faultOf? x = none) :
    s.sweep p xs = .ok (xs.flatMap s.outputOf, (xs.map s.countOf).sum) :=
  sweep_eq_ok_iff.2 ⟨h, rfl, rfl⟩

/-- The failure of a sweep is that of the first row that fails. -/
theorem sweep_eq_error_iff :
    s.sweep p xs = .error (q, e) ↔
      ∃ k x, q = p + k ∧ xs[k]? = some x ∧ s.faultOf? x = some e ∧
        ∀ j < k, ∀ y, xs[j]? = some y → s.faultOf? y = none := by
  induction xs generalizing p with
  | nil =>
    constructor
    · intro h
      cases h
    · rintro ⟨k, x, -, hx, -⟩
      cases hx
  | cons x xs ih =>
    rw [sweep]
    cases hx : s.faultOf? x with
    | some e' =>
      constructor
      · intro h
        cases h
        exact ⟨0, x, rfl, rfl, hx, fun j hj => absurd hj (Nat.not_lt_zero j)⟩
      · rintro ⟨k, y, rfl, hy, hfault, hbefore⟩
        cases k with
        | zero =>
          cases hy
          rw [hx] at hfault
          cases hfault
          rfl
        | succ k =>
          have hfirst := hbefore 0 (Nat.succ_pos k) x rfl
          rw [hx] at hfirst
          cases hfirst
    | none =>
      have hstep : (match s.sweep (p + 1) xs with
          | .error failure => .error failure
          | .ok (out, tally) => .ok (s.outputOf x ++ out, s.countOf x + tally)) =
            (.error (q, e) : Except (Nat × Fault) (List Row × Tally)) ↔ s.sweep (p + 1) xs = .error (q, e) := by
        cases s.sweep (p + 1) xs with
        | error failure => exact ⟨fun h => by cases h; rfl, fun h => by cases h; rfl⟩
        | ok r => exact ⟨fun h => (nomatch h), fun h => (nomatch h)⟩
      rw [hstep, ih]
      constructor
      · rintro ⟨k, y, rfl, hy, hfault, hbefore⟩
        refine ⟨k + 1, y, by omega, hy, hfault, fun j hj z hz => ?_⟩
        cases j with
        | zero =>
          cases hz
          exact hx
        | succ j => exact hbefore j (by omega) z hz
      · rintro ⟨k, y, rfl, hy, hfault, hbefore⟩
        cases k with
        | zero =>
          cases hy
          rw [hx] at hfault
          cases hfault
        | succ k => exact ⟨k, y, by omega, hy, hfault, fun j hj z hz => hbefore (j + 1) (by omega) z hz⟩

/-- Either no row fails, or there is a first one that does. -/
theorem no_fault_or_first (s : Stage) (xs : List Trial) :
    (∀ x ∈ xs, s.faultOf? x = none) ∨
      ∃ (k : Nat) (x : Trial) (e : Fault), xs[k]? = some x ∧ s.faultOf? x = some e ∧
        ∀ j < k, ∀ y, xs[j]? = some y → s.faultOf? y = none := by
  cases h : s.sweep 0 xs with
  | ok r => exact Or.inl (sweep_eq_ok_iff.1 h).1
  | error failure =>
    obtain ⟨k, x, -, hfirst⟩ := sweep_eq_error_iff.1 h
    exact Or.inr ⟨k, x, _, hfirst⟩

/-- A sweep that gets through the first rows goes on with the others. -/
theorem sweep_append_of_ok (h : s.sweep p xs = .ok (out, tally)) :
    s.sweep p (xs ++ ys) = (s.sweep (p + xs.length) ys).map fun r => (out ++ r.1, tally + r.2) := by
  obtain ⟨hnone, rfl, rfl⟩ := sweep_eq_ok_iff.1 h
  clear h
  induction xs generalizing p with
  | nil =>
    rw [List.nil_append, List.length_nil, Nat.add_zero]
    cases s.sweep p ys with
    | error failure => rfl
    | ok r => simp [Except.map]
  | cons x xs ih =>
    obtain ⟨hx, hxs⟩ := List.forall_mem_cons.1 hnone
    have hlen : p + 1 + xs.length = p + (x :: xs).length := by
      rw [List.length_cons]
      omega
    rw [List.cons_append, sweep, hx, ih hxs, hlen]
    cases s.sweep (p + (x :: xs).length) ys with
    | error failure => rfl
    | ok r =>
      simp only [Except.map, List.flatMap_cons, List.map_cons, List.sum_cons, List.append_assoc, add_assoc]

/-- One more row that does not fail. -/
theorem sweep_snoc_of_ok (h : s.sweep p xs = .ok (out, tally)) (hx : s.faultOf? x = none) :
    s.sweep p (xs ++ [x]) = .ok (out ++ s.outputOf x, tally + s.countOf x) := by
  rw [sweep_append_of_ok h, sweep, hx]
  simp [sweep, Except.map]

/-- A row that fails ends the sweep. -/
theorem sweep_of_fault (h : s.sweep p xs = .ok (out, tally)) (hx : s.faultOf? x = some e) :
    s.sweep p (xs ++ x :: ys) = .error (p + xs.length, e) := by
  rw [sweep_append_of_ok h, sweep, hx]
  rfl

/-- The rows that a sweep got through are not where it fails. -/
theorem le_of_sweep_error (h : s.sweep p xs = .ok (out, tally)) (hfail : s.sweep p (xs ++ ys) = .error (q, e)) :
    p + xs.length ≤ q := by
  rw [sweep_append_of_ok h] at hfail
  cases hs : s.sweep (p + xs.length) ys with
  | ok r =>
    rw [hs] at hfail
    cases hfail
  | error failure =>
    rw [hs] at hfail
    cases hfail
    obtain ⟨k, -, hk, -⟩ := sweep_eq_error_iff.1 hs
    omega

end Stage
end Millrace
