import Mathlib.Algebra.Ring.Nat
import Millrace.Pipeline.Tally

/-!
# Tallies as sums

Tallies add up in any order, so the tally of a stage is a sum over its rows.  `Tally.outcome` forgets which path the
rows took; what is left does not depend on the settings.
-/

namespace Millrace

namespace FaultCounts

theorem ext_get {a b : FaultCounts} (h : ∀ kind, a.get kind = b.get kind) : a = b := by
  cases a
  cases b
  have h1 := h .domain
  have h2 := h .zeroDivision
  have h3 := h .overflow
  have h4 := h .index
  have h5 := h .conversion
  have h6 := h .type
  have h7 := h .arity
  simp only [get] at h1 h2 h3 h4 h5 h6 h7
  simp only [mk.injEq]
  exact ⟨h1, h2, h3, h4, h5, h6, h7⟩

instance : Zero FaultCounts := ⟨{}⟩

theorem get_zero (kind : FaultKind) : (0 : FaultCounts).get kind = 0 := by
  cases kind <;> rfl

instance : AddCommMonoid FaultCounts where
  add_assoc a b c := ext_get fun kind => by simp only [get_add, Nat.add_assoc]
  zero_add a := ext_get fun kind => by rw [get_add, get_zero, Nat.zero_add]
  add_zero a := ext_get fun kind => by rw [get_add, get_zero, Nat.add_zero]
  add_comm a b := ext_get fun kind => by rw [get_add, get_add, Nat.add_comm]
  nsmul := nsmulRec

theorem total_add (a b : FaultCounts) : (a + b).total = a.total + b.total := by
  change a.domain + b.domain + (a.zeroDivision + b.zeroDivision) + (a.overflow + b.overflow) + (a.index + b.index) +
    (a.conversion + b.conversion) + (a.type + b.type) + (a.arity + b.arity) = a.total + b.total
  simp only [total]
  omega

theorem total_eq_sum (c : FaultCounts) : c.total = (FaultKind.all.map c.get).sum := by
  simp only [total, FaultKind.all, get, List.map_cons, List.map_nil, List.sum_cons, List.sum_nil]
  omega

theorem get_le_total (c : FaultCounts) (kind : FaultKind) : c.get kind ≤ c.total := by
  cases kind <;> simp only [get, total] <;> omega

end FaultCounts

namespace Tally

instance : Zero Tally := ⟨{}⟩

theorem add_mk (a b : Tally) :
    a + b = ⟨a.rowsIn + b.rowsIn, a.rowsOut + b.rowsOut, a.fastPath + b.fastPath, a.fallback + b.fallback,
      a.generalOnly + b.generalOnly, a.resolved + b.resolved, a.ignored + b.ignored, a.faults + b.faults⟩ := rfl

theorem zero_mk : (0 : Tally) = ⟨0, 0, 0, 0, 0, 0, 0, 0⟩ := rfl

instance : AddCommMonoid Tally where
  add_assoc a b c := by simp only [add_mk, add_assoc]
  zero_add a := by simp only [add_mk, zero_mk, zero_add]
  add_zero a := by simp only [add_mk, zero_mk, add_zero]
  add_comm a b := by simp only [add_mk, add_comm]
  nsmul := nsmulRec

/-- The tally without the numbers of rows on each path. -/
def outcome (t : Tally) : Tally := { t with fastPath := 0, fallback := 0, generalOnly := 0 }

theorem outcome_add (a b : Tally) : (a + b).outcome = a.outcome + b.outcome := by
  simp only [add_mk, outcome, Nat.add_zero]

/-- The number of rows on all paths. -/
def paths (t : Tally) : Nat := t.fastPath + t.fallback + t.generalOnly

theorem paths_add (a b : Tally) : (a + b).paths = a.paths + b.paths := by
  simp only [add_mk, paths]
  omega

end Tally
end Millrace
