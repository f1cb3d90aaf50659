import Millrace.Proofs.Pipeline.Completion
import Millrace.Proofs.Pipeline.Sequential

/-!
# The balance of the counters

A stage with a lambda counts every row that comes in, and the path that the row takes: the fast path, the evaluator
after it, or the evaluator alone.  A row that lacks the column of the lambda goes straight to the handlers and is on no
path; all others are on exactly one (`balanced_of_sound`).  In the same way every row goes out, or is ignored, or is
filtered out.  So the counters of a completed stage balance (`run_balanced`), as do those that the report of a pipeline
lists for it (`report_balanced`).

## Main statements

* `balanced_of_sound`: one row.
* `run_balanced`: one stage.
* `report_balanced`: a stage of a pipeline.
-/

namespace Millrace

/-- The number of rows without the column that the lambda sees. -/
def Action.unseen (a : Action) (rows : List Row) : Nat := rows.countP fun row => (a.input? row).isNone

/-- The counters of a stage with a lambda, after it worked on these rows. -/
structure Balanced (a : Action) (rows : List Row) (t : Tally) : Prop where
  rowsIn : t.rowsIn = rows.length
  paths : t.paths + a.unseen rows = t.rowsIn
  kept_le : t.rowsOut + t.ignored ≤ t.rowsIn
  kept : (∀ f, a ≠ .filter f) → t.rowsOut + t.ignored = t.rowsIn

section
variable {s : Stage} {a : Action} {f : Lambda} {compiled : Option FastPath.Compiled} {row : Row} {t u : Tally}
  {state : RowState} {xs ys : List Row}

theorem balanced_nil : Balanced a [] 0 := ⟨rfl, rfl, Nat.le_refl 0, fun _ => rfl⟩

theorem balanced_append (ht : Balanced a xs t) (hu : Balanced a ys u) : Balanced a (xs ++ ys) (t + u) := by
  have hin : (t + u).rowsIn = t.rowsIn + u.rowsIn := rfl
  have hout : (t + u).rowsOut + (t + u).ignored = (t.rowsOut + t.ignored) + (u.rowsOut + u.ignored) := by
    simp only [Tally.add_mk]
    omega
  have hunseen : a.unseen (xs ++ ys) = a.unseen xs + a.unseen ys := List.countP_append
  constructor
  · rw [hin, ht.rowsIn, hu.rowsIn, List.length_append]
  · rw [Tally.paths_add, hunseen, hin, ← ht.paths, ← hu.paths]
    omega
  · have := ht.kept_le
    have := hu.kept_le
    omega
  · intro ha
    rw [hout, hin, ht.kept ha, hu.kept ha]

/-! ### Rows -/

/-- A row that the evaluator works on is on the path that is counted for it. -/
theorem evaluate_counts (path : Tally) (hone : path.paths = 1) (hzero : path.ignored = 0) (s : Stage) (f : Lambda)
    (input : Row) :
    (path + (s.evaluate f input).2).paths = 1 ∧
      (path + (s.evaluate f input).2).ignored = (s.evaluate f input).1.taken.ignored := by
  obtain ⟨hpaths, hignored⟩ := paths_of_taken (evaluate_taken s f input)
  constructor
  · rw [Tally.paths_add, hone, hpaths]
  · rw [← hignored, Tally.add_mk]
    simp only [hzero, Nat.zero_add]

/-- A row is on one path unless it lacks the column of the lambda, and it is ignored when it is dropped. -/
theorem finish_counts (s : Stage) (f : Lambda) (compiled : Option FastPath.Compiled) (row : Row) :
    (s.finish f compiled row).2.paths + s.action.unseen [row] = 1 ∧
      (s.finish f compiled row).2.ignored = (s.finish f compiled row).1.taken.ignored ∧
      (s.finish f compiled row).1.isFinished = true := by
  have hseen (input : Row) (hinput : s.action.input? row = some input) : s.action.unseen [row] = 0 := by
    simp [Action.unseen, hinput]
  cases finish_cases s f compiled row with
  | missing hinput hfinish =>
    obtain ⟨hpaths, hignored⟩ := paths_of_taken (handle_taken s row (FaultCause.columnRead row.length))
    have hunseen : s.action.unseen [row] = 1 := by simp [Action.unseen, hinput]
    rw [hfinish, hpaths, hunseen]
    exact ⟨rfl, hignored, isFinished_of_isHandled (handle_isHandled s row _)⟩
  | @general input hinput _ hfinish =>
    obtain ⟨hpaths, hignored⟩ := evaluate_counts { generalOnly := 1 } rfl rfl s f input
    rw [hfinish, hseen input hinput]
    exact ⟨hpaths, hignored, evaluate_isFinished s f input⟩
  | @fallback input _ _ hinput _ _ hfinish =>
    obtain ⟨hpaths, hignored⟩ := evaluate_counts { fallback := 1 } rfl rfl s f input
    rw [hfinish, hseen input hinput]
    exact ⟨hpaths, hignored, evaluate_isFinished s f input⟩
  | @fast input _ _ hinput _ _ hfinish =>
    rw [hfinish, hseen input hinput]
    exact ⟨rfl, rfl, rfl⟩

theorem length_output {v : Value} {kept : Option Row} (hf : a.lambda? = some f) (h : a.output row v = .ok kept) :
    kept.toList.length ≤ 1 ∧ ((∀ f, a ≠ .filter f) → kept.toList.length = 1) := by
  have hle : kept.toList.length ≤ 1 := by
    cases kept with
    | none => exact Nat.zero_le 1
    | some row => exact Nat.le_refl 1
  refine ⟨hle, fun ha => ?_⟩
  have hreplace (column : Nat)
      (h : (if column < row.length then .ok (some (row.set column v)) else fault (.column column row.length) :
        RowResult (Option Row)) = .ok kept) : kept.toList.length = 1 := by
    split at h
    · cases h
      rfl
    · cases h
  cases a with
  | select columns | unique => cases hf
  | filter g => exact absurd rfl (ha g)
  | map g =>
    cases h
    rfl
  | mapColumn column g => exact hreplace column h
  | withColumn column g =>
    cases column with
    | some column => exact hreplace column h
    | none =>
      cases h
      rfl

/-- A row goes out or is ignored, or a filter drops it. -/
theorem length_settle {kept : Option Row} (hf : s.action.lambda? = some f) (hstate : state.isFinished = true)
    (h : s.settle row state = .ok kept) :
    kept.toList.length + state.taken.ignored ≤ 1 ∧
      ((∀ f, s.action ≠ .filter f) → kept.toList.length + state.taken.ignored = 1) := by
  cases state with
  | pending | fastFailed r => cases hstate
  | failed e => cases h
  | dropped =>
    cases h
    exact ⟨Nat.le_refl 1, fun _ => rfl⟩
  | fastValue v | value v | resolved v => exact length_output hf h

/-- A row that does not fail is counted once. -/
theorem balanced_of_sound {x : Trial} (hf : s.action.lambda? = some f) (hsound : s.faultOf? x = none) :
    Balanced s.action [x.2] (s.countOf x) := by
  obtain ⟨compiled, row⟩ := x
  obtain ⟨hpaths, hignored, hfinished⟩ := finish_counts s f compiled row
  obtain ⟨kept, hkept⟩ := settle_of_sound hf hsound
  have hcount : s.countOf (compiled, row) =
      { (s.finish f compiled row).2 with rowsIn := 1, rowsOut := kept.toList.length } := by
    simp only [Stage.countOf, Stage.outputOf, process_of_lambda hf, hkept]
  obtain ⟨hle, heq⟩ := length_settle hf hfinished hkept
  rw [hcount]
  refine ⟨rfl, hpaths, ?_, fun ha => ?_⟩
  · dsimp only
    rw [hignored]
    exact hle
  · dsimp only
    rw [hignored]
    exact heq ha

theorem balanced_sum {xs : List Trial} (hf : s.action.lambda? = some f) (hsound : ∀ x ∈ xs, s.faultOf? x = none) :
    Balanced s.action (xs.map (·.2)) (xs.map s.countOf).sum := by
  induction xs with
  | nil => exact balanced_nil
  | cons x xs ih =>
    obtain ⟨hx, hxs⟩ := List.forall_mem_cons.1 hsound
    rw [List.map_cons, List.map_cons, List.sum_cons]
    exact balanced_append (balanced_of_sound hf hx) (ih hxs)

/-! ### Stages -/

variable {settings : Settings} {cancelled : Bool} {index : Nat} {memo : FastPath.Memo}
  {partitions last out : List Partition} {tally : Tally}

/-- The counters of a completed stage balance. -/
theorem run_balanced (hsize : settings.batchSize ≠ 0) (hf : s.action.lambda? = some f)
    (hrun : (s.run settings cancelled index memo partitions).1 = .ok (out, tally)) :
    Balanced s.action partitions.flatten tally := by
  obtain ⟨hsound, -, rfl⟩ := run_eq_ok (ne_unique_of_lambda hf) hsize hrun
  rw [← trials_rows s settings memo partitions]
  exact balanced_sum hf hsound

/-! ### Pipelines -/

/-- The report has a tally for every stage. -/
theorem length_of_runFrom {stages : List Stage} {report : Report}
    (h : runFrom settings cancelled index memo partitions stages = .ok (last, report)) :
    report.stages.length = stages.length := by
  have hnames := congrArg List.length (names_of_runFrom h)
  rwa [List.length_map, List.length_map] at hnames

/-- The first stages of a pipeline that comes to its end, and the others after them. -/
theorem runFrom_append {before after : List Stage} {report : Report}
    (h : runFrom settings cancelled index memo partitions (before ++ after) = .ok (last, report)) :
    ∃ given done memo' rest, runFrom settings cancelled index memo partitions before = .ok (given, done) ∧
      runFrom settings cancelled (index + before.length) memo' given after = .ok (last, rest) ∧
      report.stages = done.stages ++ rest.stages := by
  induction before generalizing index memo partitions report with
  | nil => exact ⟨partitions, {}, memo, report, rfl, h, rfl⟩
  | cons t before ih =>
    rw [List.cons_append] at h
    obtain ⟨out, tally, report', hrun, hlater, rfl⟩ := runFrom_cons_eq_ok h
    obtain ⟨given, done, memo', rest, hbefore, hafter, hstages⟩ := ih hlater
    refine ⟨given, ⟨(t.name, tally) :: done.stages⟩, memo', rest, ?_, ?_, ?_⟩
    · rw [runFrom_cons_of_ok hrun, hbefore]
      rfl
    · rw [List.length_cons, Nat.add_comm before.length 1, ← Nat.add_assoc]
      exact hafter
    · exact congrArg (_ :: ·) hstages

/-- The counters of a stage with a lambda that comes after other stages.  The report of a pipeline that comes to its end
has them in the place of the stage, and whenever the stage is completed they balance. -/
theorem report_balanced (hcheck : settings.check = .ok ()) (hf : s.action.lambda? ≠ none) (cancelled : Bool)
    (before after : List Stage) (partitions : List Partition) :
    (∀ last report, runPipeline settings cancelled (before ++ s :: after) partitions = .ok (last, report) →
      ∃ given done memo out tally, runPipeline settings cancelled before partitions = .ok (given, done) ∧
        (s.run settings cancelled before.length memo given).1 = .ok (out, tally) ∧
        report.stages[before.length]? = some (s.name, tally)) ∧
    ∀ memo given out tally, (s.run settings cancelled before.length memo given).1 = .ok (out, tally) →
      Balanced s.action given.flatten tally := by
  obtain ⟨f, hf⟩ := Option.ne_none_iff_exists'.1 hf
  refine ⟨fun last report h => ?_, fun memo given out tally hrun => run_balanced (batchSize_of_check hcheck) hf hrun⟩
  obtain ⟨given, done, memo, rest, hbefore, hafter, hstages⟩ := runFrom_append h
  rw [Nat.zero_add] at hafter
  obtain ⟨out, tally, later, hrun, -, rfl⟩ := runFrom_cons_eq_ok hafter
  refine ⟨given, done, memo, out, tally, hbefore, hrun, ?_⟩
  have hlength : done.stages.length = before.length := length_of_runFrom hbefore
  rw [hstages, List.getElem?_append_right (by omega), hlength, Nat.sub_self]
  rfl

/-- The stage that leaves the second column as it is and ignores rows without one. -/
def secondColumn : Stage := ⟨.mapColumn 1 ⟨1, ["x"], .param 0, none⟩, [.ignore .index]⟩

theorem process_secondColumn_missing (compiled : Option FastPath.Compiled) (n : Int64) :
    secondColumn.process compiled [.int n] = (.ok none, { ignored := 1, faults := .one .index }) := by
  have hfinish : secondColumn.finish ⟨["x"], .param 0, none⟩ compiled [.int n] =
      secondColumn.handle [.int n] (FaultCause.columnRead 1) := finish_of_missing rfl
  have hhandle : secondColumn.handle [.int n] (FaultCause.columnRead 1) =
      (.dropped, { faults := .one .index } + { ignored := 1 }) := handle_of_ignore rfl rfl
  rw [process_of_lambda rfl, hfinish, hhandle]
  rfl

/-- A row without a second column comes in, but it is on no path. -/
theorem paths_of_missing_column :
    let settings : Settings := { Settings.standard 1 with fastPath := false }
    let tally : Tally := { rowsIn := 1, ignored := 1, faults := .one .index }
    settings.check = .ok () ∧ secondColumn.action.lambda? ≠ none ∧
      (∃ out, runPipeline settings false [secondColumn] [[[.int 1]]] = .ok (out, ⟨[(secondColumn.name, tally)]⟩)) ∧
      tally.rowsIn = 1 ∧ tally.fastPath + tally.fallback + tally.generalOnly = 0 := by
  intro settings tally
  have hcheck : ({ Settings.standard 1 with fastPath := false } : Settings).check = .ok () := by rfl
  have hsweep : secondColumn.sweep 0 (secondColumn.trials settings {} [[[.int 1]]]) = .ok ([], tally) := by
    have htrials : secondColumn.trials settings {} [[[.int 1]]] = [(none, [.int 1])] := rfl
    rw [htrials]
    simp only [Stage.sweep, Stage.faultOf?, Stage.outputOf, Stage.countOf, process_secondColumn_missing]
    rfl
  obtain ⟨out, hrun, -⟩ := run_of_sweep_ok 0 (by rintro ⟨⟩) (batchSize_of_check hcheck) hsweep
  refine ⟨hcheck, by rintro ⟨⟩, ⟨out, ?_⟩, rfl, rfl⟩
  rw [runPipeline, runFrom_cons_of_ok hrun]
  rfl

/-- Of two rows, one has a second column. -/
theorem report_balanced_secondColumn :
    let settings : Settings := { Settings.standard 1 with fastPath := false }
    let partitions : List Partition := [[[.int 1, .int 2], [.int 3]]]
    let tally : Tally := { rowsIn := 2, rowsOut := 1, generalOnly := 1, ignored := 1, faults := .one .index }
    settings.check = .ok () ∧ secondColumn.action.lambda? ≠ none ∧
      (∃ out, (secondColumn.run settings false 0 {} partitions).1 = .ok (out, tally)) ∧
      Balanced secondColumn.action partitions.flatten tally := by
  intro settings partitions tally
  have hcheck : ({ Settings.standard 1 with fastPath := false } : Settings).check = .ok () := by rfl
  have hlambda : secondColumn.action.lambda? ≠ none := by rintro ⟨⟩
  have hsweep : secondColumn.sweep 0 (secondColumn.trials settings {} partitions) = .ok ([[.int 1, .int 2]], tally) := by
    have htrials : secondColumn.trials settings {} partitions = [(none, [.int 1, .int 2]), (none, [.int 3])] := rfl
    have hone : secondColumn.process none [.int 1, .int 2] = (.ok (some [.int 1, .int 2]), { generalOnly := 1 }) := rfl
    rw [htrials]
    simp only [Stage.sweep, Stage.faultOf?, Stage.outputOf, Stage.countOf, hone, process_secondColumn_missing]
    rfl
  obtain ⟨out, hrun, -⟩ := run_of_sweep_ok 0 (by rintro ⟨⟩) (batchSize_of_check hcheck) hsweep
  exact ⟨hcheck, hlambda, ⟨out, hrun⟩, (report_balanced hcheck hlambda false [] [] partitions).2 _ _ _ _ hrun⟩

end
end Millrace
