import Millrace.Fault

/-!
# Tallies

What a stage counts while it works: how many rows came in and went out, which path each of them took, and how
often each kind of fault occurred.  Tallies of parts of a stage add up to the tally of the stage; the tallies of
all stages make up the report of a run.
-/

namespace Millrace

/-- How often each kind of fault occurred. -/
structure FaultCounts where
  domain : Nat := 0
  zeroDivision : Nat := 0
  overflow : Nat := 0
  index : Nat := 0
  conversion : Nat := 0
  type : Nat := 0
  arity : Nat := 0
  deriving Repr, DecidableEq

namespace FaultCounts

instance : Add FaultCounts where
  add a b :=
    ⟨a.domain + b.domain, a.zeroDivision + b.zeroDivision, a.overflow + b.overflow, a.index + b.index,
     a.conversion + b.conversion, a.type + b.type, a.arity + b.arity⟩

/-- The number of faults of a kind. -/
def get (c : FaultCounts) : FaultKind → Nat
  | .domain => c.domain
  | .zeroDivision => c.zeroDivision
  | .overflow => c.overflow
  | .index => c.index
  | .conversion => c.conversion
  | .type => c.type
  | .arity => c.arity

/-- One fault of a kind. -/
def one : FaultKind → FaultCounts
  | .domain => { domain := 1 }
  | .zeroDivision => { zeroDivision := 1 }
  | .overflow => { overflow := 1 }
  | .index => { index := 1 }
  | .conversion => { conversion := 1 }
  | .type => { type := 1 }
  | .arity => { arity := 1 }

theorem get_add (a b : FaultCounts) (kind : FaultKind) : (a + b).get kind = a.get kind + b.get kind := by
  cases kind <;> rfl

theorem get_one (kind other : FaultKind) : (one kind).get other = if kind = other then 1 else 0 := by
  cases kind <;> cases other <;> rfl

/-- The kinds that occurred, in the order of reports, with their numbers. -/
def toList (c : FaultCounts) : List (FaultKind × Nat) :=
  (FaultKind.all.map fun kind => (kind, c.get kind)).filter (·.2 != 0)

/-- The number of all faults. -/
def total (c : FaultCounts) : Nat :=
  c.domain + c.zeroDivision + c.overflow + c.index + c.conversion + c.type + c.arity

end FaultCounts

/-- The counters of a stage or a part of it. -/
structure Tally where
  rowsIn : Nat := 0
  rowsOut : Nat := 0
  /-- Rows answered by the fast path. -/
  fastPath : Nat := 0
  /-- Rows on which the fast path gave up. -/
  fallback : Nat := 0
  /-- Rows for which there was no fast path. -/
  generalOnly : Nat := 0
  /-- Rows whose value came from a resolver. -/
  resolved : Nat := 0
  /-- Rows dropped because a handler ignores their faults. -/
  ignored : Nat := 0
  /-- The faults that were met, one of each kind for every row. -/
  faults : FaultCounts := {}
  deriving Repr, DecidableEq

instance : Add Tally where
  add a b :=
    ⟨a.rowsIn + b.rowsIn, a.rowsOut + b.rowsOut, a.fastPath + b.fastPath, a.fallback + b.fallback,
     a.generalOnly + b.generalOnly, a.resolved + b.resolved, a.ignored + b.ignored, a.faults + b.faults⟩

/-- Puts an entry where its key belongs in a sorted list, in place of an entry with that key. -/
def putSorted {α : Type} (key : String) (x : α) : List (String × α) → List (String × α)
  | [] => [(key, x)]
  | (k, y) :: rest =>
    if key < k then (key, x) :: (k, y) :: rest
    else if key = k then (key, x) :: rest
    else (k, y) :: putSorted key x rest

/-- The tallies of the stages of a run, by their names and in their order. -/
structure Report where
  stages : List (String × Tally) := []
  deriving Repr, DecidableEq

namespace Report

/-- The faults of the stages that had any, sorted by the names of the stages.  Of stages with the same name the
last one counts. -/
def faults (r : Report) : List (String × FaultCounts) :=
  (r.stages.filter fun (_, tally) => tally.faults.toList != []).foldl
    (fun sorted (name, tally) => putSorted name tally.faults sorted) []

/-- The number of faults in all stages. -/
def total (r : Report) : Nat := r.stages.foldr (fun (_, tally) n => tally.faults.total + n) 0

end Report
end Millrace
