import Millrace.Proofs.Pipeline.Balance

/-!
# No rows are lost

A stage that makes one row of every row, and whose handlers drop none, gives as many rows as it was given
(`rows_conserved`).  How the rows are cut into partitions and batches does not matter, as long as a batch may hold a
row: with a batch size of zero a stage works on no row at all, and comes to its end without any (`run_of_no_batches`).

## Main statements

* `finish_ne_dropped`: only a handler that ignores a fault drops a row.
* `run_of_no_batches`: a stage whose batches hold no rows.
* `rows_conserved`: the rows of a completed stage, for all settings.
-/

namespace Millrace

/-! ### Rows that are dropped -/

section
variable {s : Stage} {f : Lambda} {row input : Row} {counted : List FaultKind} {e : Fault} {handlers : List Handler}

theorem handleWith_ne_dropped (hhandlers : ∀ kind, .ignore kind ∉ handlers) :
    (handleWith input counted e handlers).1 ≠ .dropped := by
  fun_induction handleWith input counted e handlers with
  | case1 | case3 | case4 => rintro ⟨⟩
  | case2 counted e handlers kind others picked =>
    have hmem := (Handler.perm_of_pick? picked).2.mem_iff.2 (List.mem_cons_self ..)
    exact absurd hmem (hhandlers kind)
  | case5 counted e handlers kind g others picked next hnext hfatal state tally hrest ih =>
    rw [hrest] at ih
    refine ih fun k hk => hhandlers k ?_
    exact (Handler.perm_of_pick? picked).2.mem_iff.2 (List.mem_cons_of_mem _ hk)

theorem handle_ne_dropped (hhandlers : ∀ kind, .ignore kind ∉ s.handlers) : (s.handle input e).1 ≠ .dropped := by
  unfold Stage.handle
  split
  · rintro ⟨⟩
  · exact handleWith_ne_dropped hhandlers

theorem evaluate_ne_dropped (hhandlers : ∀ kind, .ignore kind ∉ s.handlers) :
    (s.evaluate f input).1 ≠ .dropped := by
  unfold Stage.evaluate
  split
  · rintro ⟨⟩
  · exact handle_ne_dropped hhandlers

/-- A stage that ignores no faults drops no row. -/
theorem finish_ne_dropped (hhandlers : ∀ kind, .ignore kind ∉ s.handlers) (f : Lambda)
    (compiled : Option FastPath.Compiled) (row : Row) : (s.finish f compiled row).1 ≠ .dropped := by
  cases finish_cases s f compiled row with
  | missing _ hfinish =>
    rw [hfinish]
    exact handle_ne_dropped hhandlers
  | fast _ _ _ hfinish =>
    rw [hfinish]
    rintro ⟨⟩
  | general _ _ hfinish | fallback _ _ _ hfinish =>
    rw [hfinish]
    exact evaluate_ne_dropped hhandlers

theorem ignored_of_ne_dropped {state : RowState} (h : state ≠ .dropped) : state.taken.ignored = 0 := by
  cases state with
  | dropped => exact absurd rfl h
  | pending | fastValue v | fastFailed r | value v | resolved v | failed e => rfl

/-- No row is counted as ignored. -/
theorem countOf_ignored (hf : s.action.lambda? = some f) (hhandlers : ∀ kind, .ignore kind ∉ s.handlers) (x : Trial) :
    (s.countOf x).ignored = 0 := by
  have hignored : (s.countOf x).ignored = (s.finish f x.1 x.2).2.ignored := by
    simp only [Stage.countOf, process_of_lambda hf]
  rw [hignored, (finish_counts s f x.1 x.2).2.1]
  exact ignored_of_ne_dropped (finish_ne_dropped hhandlers f x.1 x.2)

end

/-! ### Sums over rows -/

section
variable {s : Stage} {f : Lambda} {xs : List Trial}

theorem sum_ignored (hf : s.action.lambda? = some f) (hhandlers : ∀ kind, .ignore kind ∉ s.handlers)
    (xs : List Trial) : (xs.map s.countOf).sum.ignored = 0 := by
  induction xs with
  | nil => rfl
  | cons x xs ih =>
    rw [List.map_cons, List.sum_cons, Tally.add_mk]
    dsimp only
    rw [ih, countOf_ignored hf hhandlers x]

/-- The rows that came out are counted. -/
theorem sum_rowsOut (s : Stage) (xs : List Trial) :
    (xs.map s.countOf).sum.rowsOut = (xs.flatMap s.outputOf).length := by
  induction xs with
  | nil => rfl
  | cons x xs ih =>
    rw [List.map_cons, List.sum_cons, List.flatMap_cons, List.length_append, ← ih]
    rfl

end

/-! ### Stages -/

section
variable {s : Stage} {f : Lambda} {settings : Settings} {index : Nat} {memo : FastPath.Memo}
  {partitions out : List Partition} {tally : Tally}

/-- The rows that come out of a completed stage are the rows that it counts. -/
theorem length_of_run (hu : s.action ≠ .unique) (hsize : settings.batchSize ≠ 0)
    (hrun : (s.run settings false index memo partitions).1 = .ok (out, tally)) :
    out.flatten.length = tally.rowsOut := by
  obtain ⟨hsound, -, htally⟩ := run_eq_ok hu hsize hrun
  obtain ⟨out', hrun', hrows⟩ := run_of_sweep_ok index hu hsize (Stage.sweep_of_ok hsound)
  obtain ⟨rfl, -⟩ := Prod.mk.inj (Except.ok.inj (hrun.symm.trans hrun'))
  rw [hrows, htally, sum_rowsOut]

theorem plan_of_no_batches (index position : Nat) (shares : List Share) : plan 0 index position shares = [] := by
  induction shares generalizing index position with
  | nil => rfl
  | cons share shares ih =>
    obtain ⟨compiled, rows⟩ := share
    exact ih (index + 1) position

theorem collect_of_no_batches (shares : List Share) :
    (Slots.empty 0 shares).collect? = some (shares.map fun _ => []) := by
  induction shares with
  | nil => rfl
  | cons share shares ih =>
    unfold Slots.collect? Slots.empty at ih ⊢
    rw [List.map_cons, List.mapM_cons, ih]
    rfl

/-- When batches hold no rows, a stage comes to its end and all rows are gone. -/
theorem run_of_no_batches (hu : s.action ≠ .unique) (hsize : settings.batchSize = 0) (index : Nat)
    (memo : FastPath.Memo) (partitions : List Partition) :
    (s.run settings false index memo partitions).1 = .ok ([], {}) := by
  have hempty (shares : List Share) : (shares.map fun _ => ([] : Partition)).filter (!·.isEmpty) = [] := by simp
  rw [run_eq_work hu, hsize]
  simp only [Stage.work, Stage.assemble, plan_of_no_batches, Stage.runPlan, List.foldl_nil, Bool.false_eq_true,
    ↓reduceIte, collect_of_no_batches, hempty]

/-- Whether a stage replaces every row by one row, with a lambda. -/
def Action.replacesRows : Action → Bool
  | .map _ | .mapColumn _ _ | .withColumn _ _ => true
  | .filter _ | .select _ | .unique => false

theorem lambda_of_replacesRows {a : Action} (h : a.replacesRows = true) :
    (∃ f, a.lambda? = some f) ∧ ∀ f, a ≠ .filter f := by
  cases a with
  | map f | mapColumn column f | withColumn column f => exact ⟨⟨f.lambda, rfl⟩, fun g => by rintro ⟨⟩⟩
  | filter f | select columns | unique => cases h

/-- A stage that replaces every row by one row and ignores no faults counts all its rows, and as many come out, unless
its batches hold no rows; then it ends without any rows. -/
theorem rows_conserved (hrows : s.action.replacesRows = true) (hhandlers : ∀ kind, .ignore kind ∉ s.handlers)
    (settings : Settings) (index : Nat) (memo : FastPath.Memo) (partitions : List Partition) :
    (settings.batchSize ≠ 0 → ∀ out tally, (s.run settings false index memo partitions).1 = .ok (out, tally) →
      tally.rowsIn = partitions.flatten.length ∧ tally.rowsOut = partitions.flatten.length ∧
        out.flatten.length = partitions.flatten.length) ∧
    (settings.batchSize = 0 → (s.run settings false index memo partitions).1 = .ok ([], {})) := by
  obtain ⟨⟨f, hf⟩, hfilter⟩ := lambda_of_replacesRows hrows
  have hu : s.action ≠ .unique := ne_unique_of_lambda hf
  refine ⟨fun hsize out tally hrun => ?_, fun hsize => run_of_no_batches hu hsize index memo partitions⟩
  have hbalanced : Balanced s.action partitions.flatten tally := run_balanced hsize hf hrun
  have hignored : tally.ignored = 0 := by
    obtain ⟨-, -, rfl⟩ := run_eq_ok hu hsize hrun
    exact sum_ignored hf hhandlers _
  have hout : tally.rowsOut = partitions.flatten.length := by
    rw [← hbalanced.rowsIn, ← hbalanced.kept hfilter, hignored, Nat.add_zero]
  exact ⟨hbalanced.rowsIn, hout, by rw [length_of_run hu hsize hrun, hout]⟩

/-- The stage that repeats the first column at the end of a row. -/
def repeatFirst : Stage := ⟨.withColumn none ⟨1, ["x", "y"], .param 0, none⟩, []⟩

/-- A row is lost when batches hold no rows. -/
theorem rows_lost_without_batches :
    let settings : Settings := { Settings.standard 1 with batchSize := 0 }
    repeatFirst.action.replacesRows = true ∧ (∀ kind, .ignore kind ∉ repeatFirst.handlers) ∧
      ∃ tally, (repeatFirst.run settings false 0 {} [[[.int 1, .int 2]]]).1 = .ok ([], tally) ∧
        tally.rowsIn ≠ [[[Value.int 1, Value.int 2]]].flatten.length :=
  ⟨rfl, fun _ => List.not_mem_nil, {}, run_of_no_batches (by rintro ⟨⟩) rfl 0 {} _, by decide⟩

/-- Two partitions, cut into batches of one row. -/
theorem rows_conserved_repeatFirst :
    let settings : Settings := { Settings.standard 1 with batchSize := 1, fastPath := false }
    let partitions : List Partition := [[[.int 1, .int 2], [.int 3, .int 4]], [[.int 5, .int 6]]]
    settings.batchSize ≠ 0 ∧ repeatFirst.action.replacesRows = true ∧
      (∀ kind, .ignore kind ∉ repeatFirst.handlers) ∧
      ∃ out tally, (repeatFirst.run settings false 0 {} partitions).1 = .ok (out, tally) ∧
        tally.rowsIn = 3 ∧ tally.rowsOut = 3 ∧ out.flatten.length = 3 := by
  intro settings partitions
  have hhandlers : ∀ kind, .ignore kind ∉ repeatFirst.handlers := fun _ => List.not_mem_nil
  have hsound : ∀ x ∈ repeatFirst.trials settings {} partitions, repeatFirst.faultOf? x = none := by
    have htrials : repeatFirst.trials settings {} partitions =
        [(none, [.int 1, .int 2]), (none, [.int 3, .int 4]), (none, [.int 5, .int 6])] := rfl
    rw [htrials]
    simp only [List.mem_cons, List.not_mem_nil, or_false, forall_eq_or_imp, forall_eq]
    exact ⟨rfl, rfl, rfl⟩
  obtain ⟨out, hrun, -⟩ :=
    run_of_sweep_ok 0 (by rintro ⟨⟩) (show settings.batchSize ≠ 0 from Nat.one_ne_zero) (Stage.sweep_of_ok hsound)
  exact ⟨Nat.one_ne_zero, rfl, hhandlers, out, _, hrun,
    (rows_conserved rfl hhandlers settings 0 {} partitions).1 Nat.one_ne_zero out _ hrun⟩

end
end Millrace
