import Millrace.Pipeline.RowState

/-!
# Batches

The rows of a stage are worked on in batches, of which several may be under way at a time.  The batches of a stage
share two signals: the least position of a row that is known to have failed, and whether the run was cancelled.  A
batch looks at the signals before every row, and gives up when its next row cannot change the outcome any more.
-/

namespace Millrace

/-- What the batches of a stage share. -/
structure Signals where
  /-- The least position of a row that is known to have failed. -/
  firstFailure : Option Nat := none
  cancelled : Bool := false
  deriving DecidableEq

namespace Signals

/-- Whether the row in a position cannot change the outcome. -/
def stop (s : Signals) (position : Nat) : Bool := s.cancelled || s.firstFailure.any (· < position)

/-- The signals after the row in a position failed. -/
def fail (s : Signals) (position : Nat) : Signals :=
  { s with firstFailure := some (s.firstFailure.elim position (min position)) }

end Signals

/-- Where the rows that come out of a batch go: the place of its partition, and its own place in there. -/
structure Slot where
  partition : Nat
  batch : Nat
  deriving DecidableEq

/-- A batch under way. -/
structure Batch where
  slot : Slot
  /-- The position of the next row among all rows of the stage. -/
  position : Nat
  /-- The rows that are left. -/
  pending : List Row
  /-- The rows that came out so far. -/
  output : List Row := []
  tally : Tally := {}

/-- How a batch ends. -/
inductive BatchResult where
  | done (output : List Row) (tally : Tally)
  | failed (position : Nat) (e : Fault)
  /-- The signals made the batch give up. -/
  | abandoned

namespace Batch

/-- What becomes of a batch in one step, in which it works on one row or ends. -/
def step (s : Stage) (compiled : Option FastPath.Compiled) (signals : Signals) (b : Batch) :
    Signals × (Batch ⊕ BatchResult) :=
  match b.pending with
  | [] => (signals, .inr (.done b.output b.tally))
  | row :: rest =>
    if signals.stop b.position then (signals, .inr .abandoned)
    else
      match s.process compiled row with
      | (.error e, _) => (signals.fail b.position, .inr (.failed b.position e))
      | (.ok kept, tally) =>
        let counted : Tally := { tally with rowsIn := 1, rowsOut := kept.toList.length }
        (signals, .inl ⟨b.slot, b.position + 1, rest, b.output ++ kept.toList, b.tally + counted⟩)

theorem length_of_step {s : Stage} {compiled : Option FastPath.Compiled} {signals after : Signals} {b next : Batch}
    (stepped : b.step s compiled signals = (after, .inl next)) : next.pending.length < b.pending.length := by
  unfold step at stepped
  split at stepped
  · cases stepped
  · next row rest pending =>
    split at stepped
    · cases stepped
    · split at stepped
      · cases stepped
      · cases stepped
        rw [pending]
        exact Nat.lt_succ_self _

/-- Works on a batch to its end. -/
def run (s : Stage) (compiled : Option FastPath.Compiled) (signals : Signals) (b : Batch) : Signals × BatchResult :=
  match _stepped : b.step s compiled signals with
  | (signals, .inl next) => run s compiled signals next
  | (signals, .inr result) => (signals, result)
termination_by b.pending.length
decreasing_by exact length_of_step _stepped

end Batch
end Millrace
