import Millrace.Dataset.Table
import Millrace.Proofs.Dataset.Edits
import Millrace.Proofs.Pipeline.Cancellation

/-!
# Cancelled sessions

All actions on a dataset run its stages, so in a cancelled session they fail at the first stage that does more than
dropping repeated rows.  Where there is no such stage, they go on as if nothing had happened (`stops_of_cancel`).
-/

namespace Millrace

/-- Every action on the dataset fails for this reason. -/
def Dataset.Stops (d : Dataset) (session : Session) (e : Failure) : Prop :=
  d.run session = .error e ∧ d.collect session = .error e ∧ (∀ n, d.take session n = .error e) ∧
    (∀ n, d.table session n = .error e) ∧ d.schema session = .error e

section
variable {d : Dataset} {session : Session} {e : Failure}

theorem Dataset.stops_of_run (h : d.run session = .error e) : d.Stops session e := by
  refine ⟨h, ?_, fun n => ?_, fun n => ?_, ?_⟩
  · rw [Dataset.collect, h]
    rfl
  · rw [Dataset.take, h]
    rfl
  · rw [Dataset.table, h]
    rfl
  · rw [Dataset.schema, h]
    rfl

/-- In a cancelled session, the actions on a dataset fail at its first stage that does more than dropping repeated
rows.  Where there is no such stage, they have the results that they would have without the cancellation. -/
theorem stops_of_cancel (d : Dataset) (session : Session) :
    ((∀ s ∈ d.stages, s.action = .unique) ∧
      ∃ result, d.run session = .ok result ∧ d.run session.cancel = .ok result) ∨
    ∃ before s after, d.stages = before ++ s :: after ∧ (∀ t ∈ before, t.action = .unique) ∧
      s.action ≠ .unique ∧ d.Stops session.cancel (.worker (.cancelled s.name)) := by
  rcases unique_or_first d.stages with hall | ⟨before, s, after, hstages, hbefore, hu⟩
  · left
    obtain ⟨result, hrun⟩ := runFrom_of_unique hall session.settings 0 {}
      (Partition.split session.settings.partitionSize d.source)
    refine ⟨hall, (result.1.flatten, { d with report := some result.2 }), ?_, ?_⟩
    · rw [Dataset.run_eq_map, runPipeline, hrun]
      rfl
    · rw [Dataset.run_eq_map, runPipeline]
      exact congrArg (_ <$> ·) (hrun true)
  · right
    refine ⟨before, s, after, hstages, hbefore, hu, Dataset.stops_of_run ?_⟩
    rw [Dataset.run_eq_map, runPipeline, hstages]
    exact congrArg (_ <$> ·) (runFrom_of_cancelled hbefore hu after session.settings 0 {} _)

/-- Dropping repeated rows goes on in a cancelled session. -/
theorem run_of_cancel_unique :
    let d := (Dataset.ofValues [.int 1]).unique
    Session.new (.standard 1) = .ok ⟨.standard 1, false⟩ ∧ d.run (Session.cancel ⟨.standard 1, false⟩) =
      .ok ([[.int 1]], { d with report := some ⟨[("unique", { rowsIn := 1, rowsOut := 1 })]⟩ }) := by
  have hsplit : Partition.split 4096 [[.int 1]] = [[[.int 1]]] := by
    simp only [Partition.split, cut, List.take_nil, List.drop_nil]
  refine ⟨rfl, ?_⟩
  change (runPipeline (.standard 1) true _ (Partition.split 4096 [[.int 1]]) >>= _) = _
  rw [hsplit]
  rfl

end
end Millrace
