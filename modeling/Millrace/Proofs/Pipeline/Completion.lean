import Millrace.Proofs.Pipeline.Cancellation
import Millrace.Proofs.Pipeline.Handlers
import Millrace.Proofs.Pipeline.Schedule

/-!
# Completed stages

What is known of a stage that came to its end: no row failed, the rows of every partition are what its rows give, and
the tally is the sum over all rows (`run_eq_ok`).  A stage that does not was cancelled, or one of its rows failed
(`run_eq_error`).  So no partition grows on its way through a pipeline (`length_run_le`).  The stages of a pipeline that
come to their end are listed by `completedFrom`; when all of them do, this is the report.

## Main statements

* `run_eq_ok`: the rows and the tally of a completed stage.
* `run_eq_error`: why a stage fails.
* `completedFrom_induction`: what stages keep holds of the partitions of every completed stage.
* `report_of_runFrom`: the report lists the completed stages.
-/

namespace Millrace

section
variable {s : Stage} {settings : Settings} {compiled : Option FastPath.Compiled} {cancelled : Bool}
  {index : Nat} {memo : FastPath.Memo} {partitions out : List Partition} {tally : Tally} {failure : Failure}

/-! ### Completed stages -/

/-- In a completed stage no row failed, and the rows and the tally are those of all rows. -/
theorem run_eq_ok (hu : s.action ≠ .unique) (hsize : settings.batchSize ≠ 0)
    (h : (s.run settings cancelled index memo partitions).1 = .ok (out, tally)) :
    (∀ x ∈ s.trials settings memo partitions, s.faultOf? x = none) ∧
      out = ((s.equip settings memo partitions).1.map s.outputs).filter (!·.isEmpty) ∧
      tally = ((s.trials settings memo partitions).map s.countOf).sum := by
  cases cancelled with
  | true => cases (Stage.run_of_cancelled hu settings index memo partitions).symm.trans h
  | false =>
    cases hsweep : s.sweep 0 (s.trials settings memo partitions) with
    | ok result =>
      obtain ⟨hnone, -, htally⟩ := Stage.sweep_eq_ok_iff.1 hsweep
      obtain ⟨hwork, -⟩ := work_of_sweep_ok index hsize hsweep
      rw [run_eq_work hu] at h
      cases hwork.symm.trans h
      exact ⟨hnone, rfl, htally⟩
    | error failure => cases h.symm.trans (run_of_sweep_error index hu hsize hsweep)

/-- A stage that fails was cancelled, or one of its rows failed. -/
theorem run_eq_error (hsize : settings.batchSize ≠ 0)
    (h : (s.run settings cancelled index memo partitions).1 = .error failure) :
    failure = .worker (.cancelled s.name) ∨ ∃ x ∈ s.trials settings memo partitions, ∃ k e,
      s.faultOf? x = some e ∧ failure = .stage s.name index k e := by
  by_cases hu : s.action = .unique
  · rw [Stage.run_of_unique hu] at h
    cases h
  cases cancelled with
  | true =>
    rw [Stage.run_of_cancelled hu] at h
    cases h
    exact Or.inl rfl
  | false =>
    right
    cases hsweep : s.sweep 0 (s.trials settings memo partitions) with
    | ok result =>
      obtain ⟨out, hrun, -⟩ := run_of_sweep_ok index hu hsize hsweep
      cases h.symm.trans hrun
    | error failure =>
      obtain ⟨k, x, -, hx, hfault, -⟩ := Stage.sweep_eq_error_iff.1 hsweep
      cases h.symm.trans (run_of_sweep_error index hu hsize hsweep)
      exact ⟨x, List.mem_of_getElem? hx, _, _, hfault, rfl⟩

theorem settle_of_sound {f : Lambda} {row : Row} (hf : s.action.lambda? = some f)
    (hsound : s.faultOf? (compiled, row) = none) : ∃ kept, s.settle row (s.finish f compiled row).1 = .ok kept := by
  cases hsettle : s.settle row (s.finish f compiled row).1 with
  | ok kept => exact ⟨kept, rfl⟩
  | error e =>
    simp only [Stage.faultOf?, process_of_lambda hf, hsettle] at hsound
    cases hsound

/-! ### The size of partitions -/

theorem length_outputOf_le (s : Stage) (x : Trial) : (s.outputOf x).length ≤ 1 := by
  unfold Stage.outputOf
  split
  · next kept _ =>
    cases kept with
    | none => exact Nat.zero_le 1
    | some row => exact Nat.le_refl 1
  · exact Nat.zero_le 1

theorem length_outputs_le (s : Stage) (x : Share) : (s.outputs x).length ≤ x.2.length := by
  obtain ⟨compiled, rows⟩ := x
  unfold Stage.outputs
  dsimp only
  induction rows with
  | nil => exact Nat.le_refl 0
  | cons row rows ih =>
    rw [List.flatMap_cons, List.length_append, List.length_cons]
    have := length_outputOf_le s (compiled, row)
    omega

theorem length_firstOccurrences_le (seen rows : List Row) :
    (firstOccurrences seen rows).1.length ≤ rows.length := by
  induction rows generalizing seen with
  | nil => exact Nat.le_refl 0
  | cons row rows ih =>
    rw [firstOccurrences]
    split
    · exact Nat.le_succ_of_le (ih seen)
    · exact Nat.succ_le_succ (ih (row :: seen))

theorem length_uniqueRows_le {n : Nat} (seen : List Row) (h : ∀ rows ∈ partitions, rows.length ≤ n) :
    ∀ rows ∈ (uniqueRows seen partitions).1, rows.length ≤ n := by
  induction partitions generalizing seen with
  | nil => exact fun rows hrows => (nomatch hrows)
  | cons rows partitions ih =>
    obtain ⟨hfirst, hrest⟩ := List.forall_mem_cons.1 h
    have hothers := ih (firstOccurrences seen rows).2 hrest
    rw [uniqueRows]
    dsimp only
    split
    · exact hothers
    · exact List.forall_mem_cons.2 ⟨Nat.le_trans (length_firstOccurrences_le seen rows) hfirst, hothers⟩

/-- No partition grows in a stage. -/
theorem length_run_le {n : Nat} (hsize : settings.batchSize ≠ 0) (h : ∀ rows ∈ partitions, rows.length ≤ n)
    (hrun : (s.run settings cancelled index memo partitions).1 = .ok (out, tally)) :
    ∀ rows ∈ out, rows.length ≤ n := by
  by_cases hu : s.action = .unique
  · rw [Stage.run_of_unique hu] at hrun
    have hout := congrArg Prod.fst (Except.ok.inj hrun)
    rw [← show (uniqueRows [] partitions).1 = out from hout]
    exact length_uniqueRows_le [] h
  · obtain ⟨-, rfl, -⟩ := run_eq_ok hu hsize hrun
    intro rows hrows
    obtain ⟨share, hshare, rfl⟩ := List.mem_map.1 (List.mem_of_mem_filter hrows)
    have hgiven : share.2 ∈ (s.equip settings memo partitions).1.map (·.2) := List.mem_map_of_mem hshare
    rw [equip_rows] at hgiven
    exact Nat.le_trans (length_outputs_le s share) (h share.2 hgiven)

/-! ### Completed stages of a pipeline -/

/-- The stages that come to their end, with their tallies. -/
def completedFrom (settings : Settings) (cancelled : Bool) (index : Nat) (memo : FastPath.Memo)
    (partitions : List Partition) : List Stage → List (Stage × Tally)
  | [] => []
  | s :: rest =>
    match s.run settings cancelled index memo partitions with
    | (.error _, _) => []
    | (.ok (out, tally), memo) => (s, tally) :: completedFrom settings cancelled (index + 1) memo out rest

theorem completedFrom_cons_of_ok (h : (s.run settings cancelled index memo partitions).1 = .ok (out, tally))
    (stages : List Stage) :
    completedFrom settings cancelled index memo partitions (s :: stages) =
      (s, tally) :: completedFrom settings cancelled (index + 1) (s.run settings cancelled index memo partitions).2 out
        stages := by
  rw [completedFrom]
  split
  · next hrun =>
    rw [hrun] at h
    cases h
  · next hrun =>
    rw [hrun] at h ⊢
    cases h
    rfl

/-- Every completed stage was given partitions and a memo of which everything holds that stages keep. -/
theorem completedFrom_induction {P : FastPath.Memo → List Partition → Prop} {stages : List Stage}
    (hstart : P memo partitions)
    (hstep : ∀ s ∈ stages, ∀ index memo given out tally, P memo given →
      (s.run settings cancelled index memo given).1 = .ok (out, tally) →
        P (s.run settings cancelled index memo given).2 out) :
    ∀ x ∈ completedFrom settings cancelled index memo partitions stages, x.1 ∈ stages ∧
      ∃ index memo given out, P memo given ∧ (x.1.run settings cancelled index memo given).1 = .ok (out, x.2) := by
  induction stages generalizing index memo partitions with
  | nil => exact fun x hx => (nomatch hx)
  | cons s stages ih =>
    intro x hx
    cases hrun : (s.run settings cancelled index memo partitions).1 with
    | error failure =>
      rw [completedFrom] at hx
      split at hx
      · cases hx
      · next h =>
        rw [h] at hrun
        cases hrun
    | ok result =>
      obtain ⟨out, tally⟩ := result
      rw [completedFrom_cons_of_ok hrun] at hx
      rcases List.mem_cons.1 hx with rfl | hx
      · exact ⟨List.mem_cons_self .., index, memo, partitions, out, hstart, hrun⟩
      · obtain ⟨hkept, hsteps⟩ := List.forall_mem_cons.1 hstep
        obtain ⟨hmem, hgiven⟩ := ih (hkept _ _ _ _ _ hstart hrun) hsteps x hx
        exact ⟨List.mem_cons_of_mem s hmem, hgiven⟩

/-- The report of a pipeline lists its stages, all of which were completed. -/
theorem report_of_runFrom {stages : List Stage} {report : Report}
    (h : runFrom settings cancelled index memo partitions stages = .ok (out, report)) :
    report.stages =
      (completedFrom settings cancelled index memo partitions stages).map fun x => (x.1.name, x.2) := by
  induction stages generalizing index memo partitions report with
  | nil =>
    cases h
    rfl
  | cons s stages ih =>
    obtain ⟨given, tally, rest, hrun, hlater, rfl⟩ := runFrom_cons_eq_ok h
    rw [completedFrom_cons_of_ok hrun]
    exact congrArg (_ :: ·) (ih hlater)

/-- The report has the names of all stages. -/
theorem names_of_runFrom {stages : List Stage} {report : Report}
    (hrun : runFrom settings cancelled index memo partitions stages = .ok (out, report)) :
    report.stages.map (·.1) = stages.map Stage.name := by
  induction stages generalizing index memo partitions report with
  | nil =>
    cases hrun
    rfl
  | cons s stages ih =>
    obtain ⟨given, tally, rest, -, hlater, rfl⟩ := runFrom_cons_eq_ok hrun
    exact congrArg (_ :: ·) (ih hlater)

end
end Millrace
