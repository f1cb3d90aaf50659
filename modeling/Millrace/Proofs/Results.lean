import Mathlib.Data.List.Forall2
import Millrace.Fault

/-!
# Results

What is known of a computation that may fail: where its value came from (`bind_eq_ok`, `forall₂_of_mapM`), and the
causes for which it can fail at all (`FailsWith`).
-/

namespace Millrace

section
variable {ε α β : Type}

theorem bind_eq_ok {x : Except ε α} {f : α → Except ε β} {b : β} (h : x >>= f = .ok b) :
    ∃ a, x = .ok a ∧ f a = .ok b := by
  cases x with
  | error e => cases h
  | ok a => exact ⟨a, rfl, h⟩

theorem bind_eq_error {x : Except ε α} {f : α → Except ε β} {e : ε} (h : x >>= f = .error e) :
    x = .error e ∨ ∃ a, x = .ok a ∧ f a = .error e := by
  cases x with
  | error e' =>
    cases h
    exact Or.inl rfl
  | ok a => exact Or.inr ⟨a, rfl, h⟩

theorem map_eq_ok {x : Except ε α} {f : α → β} {b : β} (h : f <$> x = .ok b) : ∃ a, x = .ok a ∧ f a = b := by
  cases x with
  | error e => cases h
  | ok a => exact ⟨a, rfl, Except.ok.inj h⟩

theorem map_eq_error {x : Except ε α} {f : α → β} {e : ε} (h : f <$> x = .error e) : x = .error e := by
  cases x with
  | error e' =>
    cases h
    rfl
  | ok a => cases h

theorem toOption_eq_some_iff {x : Except ε α} {a : α} : x.toOption = some a ↔ x = .ok a := by
  cases x with
  | error e => exact ⟨nofun, nofun⟩
  | ok b => exact ⟨fun h => congrArg Except.ok (Option.some.inj h), fun h => congrArg some (Except.ok.inj h)⟩

theorem toOption_eq_none_iff {x : Except ε α} : x.toOption = none ↔ ∃ e, x = .error e := by
  cases x with
  | error e => exact ⟨fun _ => ⟨e, rfl⟩, fun _ => rfl⟩
  | ok a => exact ⟨nofun, nofun⟩

theorem forall₂_of_mapM {f : α → Except ε β} {xs : List α} {ys : List β} (h : xs.mapM f = .ok ys) :
    List.Forall₂ (fun x y => f x = .ok y) xs ys := by
  induction xs generalizing ys with
  | nil =>
    cases h
    exact .nil
  | cons x xs ih =>
    rw [List.mapM_cons] at h
    obtain ⟨y, hy, h⟩ := bind_eq_ok h
    obtain ⟨rest, hrest, h⟩ := bind_eq_ok h
    cases h
    exact .cons hy (ih hrest)

end

/-! ### Causes of failures -/

/-- Every fault of the result has a cause of this sort. -/
def FailsWith {α : Type} (P : FaultCause → Bool) (r : RowResult α) : Prop := ∀ e, r = .error e → P e.cause = true

section
variable {α β : Type} {P Q : FaultCause → Bool} {r s : RowResult α}

theorem failsWith_ok (x : α) : FailsWith P (.ok x) := by
  intro e h
  cases h

theorem failsWith_fault {cause : FaultCause} (h : P cause = true) : FailsWith P (fault cause : RowResult α) := by
  intro e he
  cases he
  exact h

theorem failsWith_ite {c : Prop} [Decidable c] (hr : FailsWith P r) (hs : FailsWith P s) :
    FailsWith P (if c then r else s) := by
  split
  · exact hr
  · exact hs

theorem failsWith_bind {f : α → RowResult β} (hr : FailsWith P r) (hf : ∀ x, FailsWith P (f x)) :
    FailsWith P (r >>= f) := by
  cases r with
  | error e =>
    intro e' h
    cases h
    exact hr e rfl
  | ok x => exact hf x

theorem failsWith_map {f : α → β} (hr : FailsWith P r) : FailsWith P (f <$> r) := by
  cases r with
  | error e =>
    intro e' h
    cases h
    exact hr e rfl
  | ok x => exact failsWith_ok (f x)

theorem FailsWith.mono (h : FailsWith P r) (hPQ : ∀ cause, P cause = true → Q cause = true) : FailsWith Q r :=
  fun e he => hPQ _ (h e he)

end
end Millrace
