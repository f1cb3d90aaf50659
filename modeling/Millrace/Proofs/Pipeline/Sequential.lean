import Millrace.Proofs.FastPath.Simulation
import Millrace.Proofs.Pipeline.Handlers
import Millrace.Proofs.Pipeline.Recall
import Millrace.Proofs.Pipeline.Schedule

/-!
# Pipelines as sequential programs

The plain reading of a pipeline works on all rows in their order, one stage after the other, and evaluates every
lambda with the general evaluator (`sequentialFrom`).  Partitions, batches, guessed schemas, fast paths and the memo that
keeps them change nothing about it but the numbers of rows on each path (`runPipeline_sequential`).

## Main statements

* `process_general`: a row is worked on alike with and without a sound fast path.
* `run_sequential`: one stage.
* `runPipeline_sequential`: all stages.
-/

namespace Millrace

/-! ### Rows without fast paths -/

/-- Every value of a fast path is that of the lambda. -/
def FastPath.Compiled.Sound (c : FastPath.Compiled) (f : Lambda) : Prop :=
  ∀ input v, c.call input = .ok v → f.eval input = .ok v

section
variable {s : Stage} {f : Lambda} {c : FastPath.Compiled} {row : Row}

theorem finish_general (hsound : c.Sound f) :
    s.settle row (s.finish f (some c) row).1 = s.settle row (s.finish f none row).1 ∧
      (s.finish f (some c) row).2.outcome = (s.finish f none row).2.outcome := by
  cases hinput : s.action.input? row with
  | none =>
    rw [finish_of_missing hinput, finish_of_missing hinput]
    exact ⟨rfl, rfl⟩
  | some input =>
    cases hcall : c.call input with
    | ok v =>
      have heval : s.evaluate f input = (.value v, {}) := by
        simp only [Stage.evaluate, hsound input v hcall]
      rw [finish_of_call hinput hcall, finish_of_general hinput, heval]
      exact ⟨rfl, rfl⟩
    | error r =>
      rw [finish_of_refusal hinput hcall, finish_of_general hinput, add_zero]
      refine ⟨rfl, ?_⟩
      rw [Tally.outcome_add, Tally.outcome_add]
      rfl

/-- A fast path changes nothing about a row but the path that is counted. -/
theorem process_general (row : Row) (hsound : ∀ f, s.action.lambda? = some f → c.Sound f) :
    (s.process (some c) row).1 = (s.process none row).1 ∧
      (s.process (some c) row).2.outcome = (s.process none row).2.outcome := by
  unfold Stage.process
  split
  · next f hf => exact finish_general (hsound f hf)
  · exact ⟨rfl, rfl⟩
  · exact ⟨rfl, rfl⟩

end

/-! ### Sweeps without fast paths -/

section
variable {s : Stage} {x : Trial} {xs : List Trial} {position : Nat} {e : Fault} {out : List Row} {tally : Tally}

/-- The fast path that is tried on a row is sound for the lambda of the stage. -/
def Stage.Trusts (s : Stage) (x : Trial) : Prop :=
  ∀ f c, s.action.lambda? = some f → x.1 = some c → c.Sound f

theorem trial_general (h : s.Trusts x) :
    s.faultOf? x = s.faultOf? (none, x.2) ∧ s.outputOf x = s.outputOf (none, x.2) ∧
      (s.countOf x).outcome = (s.countOf (none, x.2)).outcome := by
  obtain ⟨compiled, row⟩ := x
  cases compiled with
  | none => exact ⟨rfl, rfl, rfl⟩
  | some c =>
    obtain ⟨hresult, htally⟩ := process_general row fun f hf => h f c hf rfl
    have hout : s.outputOf (some c, row) = s.outputOf (none, row) := by
      simp only [Stage.outputOf, hresult]
    refine ⟨?_, hout, ?_⟩
    · simp only [Stage.faultOf?, hresult]
    · have hrest := congrArg
        (fun t : Tally => { t with rowsIn := 1, rowsOut := (s.outputOf (none, row)).length }) htally
      simp only [Stage.countOf, hout]
      exact hrest

/-- A row without the fast path. -/
def Trial.general (x : Trial) : Trial := (none, x.2)

theorem sweep_general_of_ok (h : ∀ x ∈ xs, s.Trusts x) (hsweep : s.sweep position xs = .ok (out, tally)) :
    ∃ tally', s.sweep position (xs.map Trial.general) = .ok (out, tally') ∧ tally.outcome = tally'.outcome := by
  obtain ⟨hnone, rfl, rfl⟩ := Stage.sweep_eq_ok_iff.1 hsweep
  refine ⟨((xs.map Trial.general).map s.countOf).sum, ?_, ?_⟩
  · refine Stage.sweep_eq_ok_iff.2 ⟨fun x hx => ?_, ?_, rfl⟩
    · obtain ⟨y, hy, rfl⟩ := List.mem_map.1 hx
      rw [Trial.general, ← (trial_general (h y hy)).1]
      exact hnone y hy
    · rw [List.flatMap_map]
      exact List.flatMap_congr fun x hx => (trial_general (h x hx)).2.1
  · clear hsweep hnone
    induction xs with
    | nil => rfl
    | cons x xs ih =>
      obtain ⟨hx, hxs⟩ := List.forall_mem_cons.1 h
      simp only [List.map_cons, List.sum_cons, Tally.outcome_add]
      rw [ih hxs, (trial_general hx).2.2]
      rfl

theorem sweep_general_of_error {k : Nat} (h : ∀ x ∈ xs, s.Trusts x) (hsweep : s.sweep position xs = .error (k, e)) :
    s.sweep position (xs.map Trial.general) = .error (k, e) := by
  obtain ⟨j, x, rfl, hx, hfault, hfirst⟩ := Stage.sweep_eq_error_iff.1 hsweep
  refine Stage.sweep_eq_error_iff.2 ⟨j, x.general, rfl, ?_, ?_, fun i hi y hy => ?_⟩
  · rw [List.getElem?_map, hx]
    rfl
  · rw [Trial.general, ← (trial_general (h x (List.mem_of_getElem? hx))).1]
    exact hfault
  · rw [List.getElem?_map, Option.map_eq_some_iff] at hy
    obtain ⟨z, hz, rfl⟩ := hy
    rw [Trial.general, ← (trial_general (h z (List.mem_of_getElem? hz))).1]
    exact hfirst i hi z hz

end

/-! ### Sequential stages -/

/-- A stage that works on all rows in their order, with the general evaluator only. -/
def Stage.sequential (s : Stage) (index : Nat) (rows : List Row) : Except Failure (List Row × Tally) :=
  match s.action with
  | .unique => .ok (rows.eraseDups, { rowsIn := rows.length, rowsOut := rows.eraseDups.length })
  | _ =>
    match s.sweep 0 (rows.map (none, ·)) with
    | .ok result => .ok result
    | .error (position, e) => .error (.stage s.name index position e)

section
variable {s : Stage} {settings : Settings} {index : Nat} {made : List Registered}
  {served : List (LambdaId × Schema)} {memo : FastPath.Memo} {partitions : List Partition}

theorem sequential_of_ne_unique (hu : s.action ≠ .unique) (index : Nat) (rows : List Row) :
    s.sequential index rows =
      match s.sweep 0 (rows.map (none, ·)) with
      | .ok result => .ok result
      | .error (position, e) => .error (.stage s.name index position e) := by
  unfold Stage.sequential
  split
  · next h => exact absurd h hu
  · rfl

theorem trials_general (s : Stage) (settings : Settings) (memo : FastPath.Memo) (partitions : List Partition) :
    (s.trials settings memo partitions).map Trial.general = partitions.flatten.map (none, ·) := by
  rw [← trials_rows s settings memo partitions, List.map_map]
  rfl

/-- The fast paths of a stage are sound when its lambda repeats no tuples for the schemas of its partitions. -/
theorem trusts_of_repeatsNoTuples (hsame : ∀ f ∈ made, ∀ g ∈ made, f.id = g.id → f.lambda = g.lambda)
    (hs : ∀ f, s.action.registered? = some f → f ∈ made) (hmemo : memo.Sound made served)
    (hf : ∀ q ∈ s.requests settings partitions, FastPath.RepeatsNoTuples q.1.lambda q.2) :
    ∀ x ∈ s.trials settings memo partitions, s.Trusts x := by
  intro x hx f c hlambda hc input v hcall
  obtain ⟨rows, hrows, hfresh, -⟩ := trials_fresh hsame hs hmemo settings partitions x hx
  obtain ⟨hon, hcompile⟩ := compile_of_freshPath hlambda (hfresh.symm.trans hc)
  rw [Action.lambda?_eq_map] at hlambda
  obtain ⟨g, hg, rfl⟩ := Option.map_eq_some_iff.1 hlambda
  exact FastPath.call_sound (hf _ (mem_requests hg hon hrows)) hcompile hcall

/-! ### Rows without repetition -/

theorem firstOccurrences_append (seen xs ys : List Row) :
    firstOccurrences seen (xs ++ ys) =
      ((firstOccurrences seen xs).1 ++ (firstOccurrences (firstOccurrences seen xs).2 ys).1,
        (firstOccurrences (firstOccurrences seen xs).2 ys).2) := by
  induction xs generalizing seen with
  | nil => rfl
  | cons x xs ih =>
    rw [List.cons_append, firstOccurrences, firstOccurrences]
    by_cases hx : x ∈ seen
    · rw [if_pos hx, if_pos hx, ih]
    · rw [if_neg hx, if_neg hx, ih]
      rfl

/-- The rows that are kept are the first occurrences of those that were not seen before. -/
theorem firstOccurrences_eq_eraseDups (seen rows : List Row) :
    (firstOccurrences seen rows).1 = (rows.filter fun row => decide (row ∉ seen)).eraseDups := by
  induction rows generalizing seen with
  | nil => rfl
  | cons row rows ih =>
    rw [firstOccurrences]
    by_cases hrow : row ∈ seen
    · rw [if_pos hrow, ih, List.filter_cons_of_neg (by simpa using hrow)]
    · rw [if_neg hrow, List.filter_cons_of_pos (by simpa using hrow), List.eraseDups_cons, List.filter_filter]
      change row :: (firstOccurrences (row :: seen) rows).1 = _
      rw [ih]
      congr 2
      apply List.filter_congr
      intro y _
      by_cases hy : y = row <;> simp [hy]

/-- Dropping repeated rows does not depend on the partitions. -/
theorem uniqueRows_flatten (seen : List Row) (partitions : List Partition) :
    (uniqueRows seen partitions).1.flatten = (firstOccurrences seen partitions.flatten).1 ∧
      (uniqueRows seen partitions).2 =
        { rowsIn := partitions.flatten.length, rowsOut := (firstOccurrences seen partitions.flatten).1.length } := by
  induction partitions generalizing seen with
  | nil => exact ⟨rfl, rfl⟩
  | cons rows partitions ih =>
    obtain ⟨hrest, htally⟩ := ih (firstOccurrences seen rows).2
    rw [List.flatten_cons, firstOccurrences_append, List.length_append, List.length_append]
    constructor
    · rw [uniqueRows]
      dsimp only
      split
      · next hempty =>
        rw [hrest, List.isEmpty_iff.1 hempty]
        rfl
      · rw [List.flatten_cons, hrest]
    · rw [uniqueRows]
      dsimp only
      rw [htally]
      rfl

/-! ### One stage -/

/-- The outcomes of a stage agree, but for the partitions and the paths that rows took. -/
inductive SameStage : Except Failure (List Partition × Tally) → Except Failure (List Row × Tally) → Prop
  | ok {partitions : List Partition} {rows : List Row} {tally tally' : Tally} :
    partitions.flatten = rows → tally.outcome = tally'.outcome →
      SameStage (.ok (partitions, tally)) (.ok (rows, tally'))
  | error (failure : Failure) : SameStage (.error failure) (.error failure)

/-- A stage does what it does to all rows in their order. -/
theorem run_sequential (hsame : ∀ f ∈ made, ∀ g ∈ made, f.id = g.id → f.lambda = g.lambda)
    (hs : ∀ f, s.action.registered? = some f → f ∈ made) (hmemo : memo.Sound made served)
    (hf : ∀ q ∈ s.requests settings partitions, FastPath.RepeatsNoTuples q.1.lambda q.2)
    (hsize : settings.batchSize ≠ 0) (index : Nat) :
    SameStage (s.run settings false index memo partitions).1 (s.sequential index partitions.flatten) := by
  by_cases hu : s.action = .unique
  · obtain ⟨hrows, htally⟩ := uniqueRows_flatten [] partitions
    have hdups : (firstOccurrences [] partitions.flatten).1 = partitions.flatten.eraseDups := by
      rw [firstOccurrences_eq_eraseDups, List.filter_eq_self.2]
      intro row _
      simp
    rw [hdups] at hrows htally
    have hrun : (s.run settings false index memo partitions).1 = .ok (uniqueRows [] partitions) := by
      simp only [Stage.run, hu]
    have hseq : s.sequential index partitions.flatten = .ok (partitions.flatten.eraseDups,
        { rowsIn := partitions.flatten.length, rowsOut := partitions.flatten.eraseDups.length }) := by
      simp only [Stage.sequential, hu]
    rw [hrun, hseq]
    exact .ok hrows (by rw [htally])
  · have htrust := trusts_of_repeatsNoTuples hsame hs hmemo hf
    rw [sequential_of_ne_unique hu]
    cases hsweep : s.sweep 0 (s.trials settings memo partitions) with
    | ok result =>
      obtain ⟨rows, tally⟩ := result
      obtain ⟨out, hrun, hflat⟩ := run_of_sweep_ok index hu hsize hsweep
      obtain ⟨tally', hgeneral, houtcome⟩ := sweep_general_of_ok htrust hsweep
      rw [trials_general] at hgeneral
      rw [hrun, hgeneral]
      exact .ok hflat houtcome
    | error failure =>
      obtain ⟨k, e⟩ := failure
      have hgeneral := sweep_general_of_error htrust hsweep
      rw [trials_general] at hgeneral
      rw [run_of_sweep_error index hu hsize hsweep, hgeneral]
      exact .error _

/-! ### All stages -/

/-- Stages one after the other, each of which works on all rows in their order, with the general evaluator only. -/
def sequentialFrom (index : Nat) (rows : List Row) : List Stage → Except Failure (List Row × Report)
  | [] => .ok (rows, {})
  | s :: rest => do
    let (rows, tally) ← s.sequential index rows
    let (rows, report) ← sequentialFrom (index + 1) rows rest
    return (rows, ⟨(s.name, tally) :: report.stages⟩)

/-- The reports agree, but for the paths that rows took. -/
def Report.SameOutcomes (r r' : Report) : Prop :=
  r.stages.map (fun x => (x.1, x.2.outcome)) = r'.stages.map fun x => (x.1, x.2.outcome)

/-- The outcomes of a pipeline agree, but for the partitions and the paths that rows took. -/
inductive SameRun : Except Failure (List Partition × Report) → Except Failure (List Row × Report) → Prop
  | ok {partitions : List Partition} {rows : List Row} {report report' : Report} :
    partitions.flatten = rows → report.SameOutcomes report' → SameRun (.ok (partitions, report)) (.ok (rows, report'))
  | error (failure : Failure) : SameRun (.error failure) (.error failure)

/-- The requests for fast paths that stages make while they run. -/
def requestsFrom (settings : Settings) (index : Nat) (memo : FastPath.Memo) (partitions : List Partition) :
    List Stage → List FastPath.Request
  | [] => []
  | s :: rest =>
    s.requests settings partitions ++
      match s.run settings false index memo partitions with
      | (.error _, _) => []
      | (.ok (out, _), memo) => requestsFrom settings (index + 1) memo out rest

/-- Fast paths are asked for on behalf of the stages. -/
theorem exists_stage_of_request {stages : List Stage} {q : FastPath.Request}
    (hq : q ∈ requestsFrom settings index memo partitions stages) : ∃ s ∈ stages, s.action.registered? = some q.1 := by
  induction stages generalizing index memo partitions with
  | nil => cases hq
  | cons s stages ih =>
    rw [requestsFrom] at hq
    rcases List.mem_append.1 hq with hq | hq
    · refine ⟨s, List.mem_cons_self .., ?_⟩
      unfold Stage.requests at hq
      split at hq
      · next f hf =>
        split at hq
        · obtain ⟨rows, -, rfl⟩ := List.mem_map.1 hq
          exact hf
        · cases hq
      · cases hq
    · split at hq
      · cases hq
      · obtain ⟨t, ht, hrequest⟩ := ih hq
        exact ⟨t, List.mem_cons_of_mem s ht, hrequest⟩

theorem runFrom_sequential (hsame : ∀ f ∈ made, ∀ g ∈ made, f.id = g.id → f.lambda = g.lambda)
    (hmemo : memo.Sound made served) (hsize : settings.batchSize ≠ 0) (stages : List Stage)
    (hs : ∀ s ∈ stages, ∀ f, s.action.registered? = some f → f ∈ made) (index : Nat)
    (hf : ∀ q ∈ requestsFrom settings index memo partitions stages, FastPath.RepeatsNoTuples q.1.lambda q.2) :
    SameRun (runFrom settings false index memo partitions stages)
      (sequentialFrom index partitions.flatten stages) := by
  induction stages generalizing index memo served partitions with
  | nil => exact .ok rfl rfl
  | cons s stages ih =>
    obtain ⟨hfirst, hstages⟩ := List.forall_mem_cons.1 hs
    rw [requestsFrom] at hf
    obtain ⟨hnow, hlater⟩ := List.forall_mem_append.1 hf
    have hstage := run_sequential hsame hfirst hmemo hnow hsize index
    obtain ⟨served', hmemo'⟩ := run_sound hsame hfirst hmemo settings false index partitions
    rw [runFrom, sequentialFrom]
    generalize s.run settings false index memo partitions = x at hstage hmemo' hlater
    generalize s.sequential index partitions.flatten = y at hstage
    obtain ⟨x, memo'⟩ := x
    cases hstage with
    | error failure => exact .error failure
    | @ok partitions' rows tally tally' hrows htally =>
      have hrest := ih hmemo' hstages (index + 1) hlater
      rw [hrows] at hrest
      change SameRun (runFrom settings false (index + 1) memo' partitions' stages >>= _)
        (sequentialFrom (index + 1) rows stages >>= _)
      generalize runFrom settings false (index + 1) memo' partitions' stages = x at hrest
      generalize sequentialFrom (index + 1) rows stages = y at hrest
      cases hrest with
      | error failure => exact .error failure
      | ok hflat hreport =>
        refine .ok hflat ?_
        simp only [Report.SameOutcomes, List.map_cons, htally] at hreport ⊢
        rw [hreport]

theorem batchSize_of_check (h : settings.check = .ok ()) : settings.batchSize ≠ 0 := by
  intro hzero
  have hfound : (settings.counts.find? (·.2 == 0)).isSome = true := by
    rw [List.find?_isSome]
    exact ⟨(.batchSize, settings.batchSize), by simp [Settings.counts], by simp [hzero]⟩
  unfold Settings.check at h
  split at h
  · cases h
  · next hnone =>
    rw [hnone] at hfound
    cases hfound

/-- A pipeline does what its stages do to all rows in their order, one after the other and without fast paths, when its
lambdas come out of a registry and repeat no tuples for the schemas that the run guesses.  So no setting makes a
difference to its outcome. -/
theorem runPipeline_sequential (hcheck : settings.check = .ok ()) (registry : Registry) (calls : List MakeCall)
    (stages : List Stage)
    (hmade : ∀ s ∈ stages, ∀ f, s.action.registered? = some f → f ∈ (Workshop.run ⟨registry, []⟩ calls).made)
    (rows : List Row)
    (hf : ∀ q ∈ requestsFrom settings 0 {} (Partition.split settings.partitionSize rows) stages,
      FastPath.RepeatsNoTuples q.1.lambda q.2) :
    SameRun (runPipeline settings false stages (Partition.split settings.partitionSize rows))
      (sequentialFrom 0 rows stages) := by
  have hrun := runFrom_sequential (Workshop.sound_run registry calls).same (FastPath.Memo.sound_empty _)
    (batchSize_of_check hcheck) stages hmade 0 hf
  rw [Partition.split, flatten_cut] at hrun
  exact hrun

/-- `lambda x: 6 // x * 2` -/
def doubledQuotient : Registered :=
  ⟨1, ["x"], .binary .mul (.binary .floorDiv (.const (.int 6)) (.param 0)) (.const (.int 2)), none⟩

/-- The stage of `doubledQuotient`, where a division by zero is resolved by `lambda x: 0` -/
def quotientOrZero : Stage := ⟨.map doubledQuotient, [.resolve .zeroDivision ⟨["x"], .const (.int 0), none⟩]⟩

/-- Settings for partitions of two rows and batches of one. -/
def smallPieces : Settings := { Settings.standard 1 with partitionSize := 2, batchSize := 1 }

/-- The row of zero falls back. -/
theorem process_quotientOrZero_zero {c : FastPath.Compiled} {r : FastPath.Reason} (hcall : c.call [.int 0] = .error r) :
    quotientOrZero.process (some c) [.int 0] =
      (.ok (some [.int 0]), { fallback := 1, resolved := 1, faults := .one .zeroDivision }) := by
  have hhandle : quotientOrZero.handle [.int 0] FaultCause.integerDivision =
      (.resolved (.int 0), { faults := .one .zeroDivision } + { resolved := 1 }) := handle_of_resolve rfl rfl rfl
  have hevaluate : quotientOrZero.evaluate doubledQuotient.lambda [.int 0] =
      (.resolved (.int 0), { faults := .one .zeroDivision } + { resolved := 1 }) := hhandle
  rw [process_of_lambda rfl, finish_of_refusal rfl hcall, hevaluate]
  rfl

/-- Both partitions get the same fast path, the second one from the memo. -/
theorem run_quotientOrZero :
    ∃ memo, quotientOrZero.run smallPieces false 0 {} [[[.int 1], [.int 0]], [[.int 2], [.int 1]]] =
      (.ok ([[[.int 12], [.int 0]], [[.int 6], [.int 12]]],
        { rowsIn := 4, rowsOut := 4, fastPath := 3, fallback := 1, resolved := 1, faults := .one .zeroDivision }),
        memo) ∧ memo.size = 1 ∧ memo.hits = 1 := by
  obtain ⟨c, memo, hequip, hone, htwo, hzero, hmemo⟩ :
      ∃ c memo, quotientOrZero.equip smallPieces {} [[[.int 1], [.int 0]], [[.int 2], [.int 1]]] =
          ([(some c, [[.int 1], [.int 0]]), (some c, [[.int 2], [.int 1]])], memo) ∧
        quotientOrZero.process (some c) [.int 1] = (.ok (some [.int 12]), { fastPath := 1 }) ∧
        quotientOrZero.process (some c) [.int 2] = (.ok (some [.int 6]), { fastPath := 1 }) ∧
        c.call [.int 0] = .error .zeroDivision ∧ memo.size = 1 ∧ memo.hits = 1 :=
    ⟨_, _, rfl, rfl, rfl, rfl, rfl, rfl⟩
  have hsweep : quotientOrZero.sweep 0
      ([(some c, [[.int 1], [.int 0]]), (some c, [[.int 2], [.int 1]])].flatMap Share.trials) =
        .ok ([[.int 12], [.int 0], [.int 6], [.int 12]],
          { rowsIn := 4, rowsOut := 4, fastPath := 3, fallback := 1, resolved := 1, faults := .one .zeroDivision }) := by
    simp only [Share.trials, List.flatMap_cons, List.flatMap_nil, List.map_cons, List.map_nil, List.append_nil,
      List.cons_append, List.nil_append, Stage.sweep, Stage.faultOf?, Stage.outputOf, Stage.countOf, hone, htwo,
      process_quotientOrZero_zero hzero]
    rfl
  obtain ⟨hwork, -⟩ := work_of_sweep_ok 0 (show smallPieces.batchSize ≠ 0 by decide) hsweep
  have houtputs : [(some c, [[.int 1], [.int 0]]), (some c, [[.int 2], [.int 1]])].map quotientOrZero.outputs =
      [[[.int 12], [.int 0]], [[.int 6], [.int 12]]] := by
    simp only [List.map_cons, List.map_nil, Stage.outputs, List.flatMap_cons, List.flatMap_nil, Stage.outputOf, hone,
      htwo, process_quotientOrZero_zero hzero]
    rfl
  refine ⟨memo, ?_, hmemo⟩
  rw [run_eq_work (by rintro ⟨⟩), hequip, hwork, houtputs]
  rfl

/-- Compiled for integers, `doubledQuotient` multiplies integers. -/
theorem repeatsNoTuples_doubledQuotient : FastPath.RepeatsNoTuples doubledQuotient.lambda (.row [.int]) := by
  intro params l hparams _ a b hmem items traits hlower
  obtain ⟨rfl, -⟩ : a = .binary .floorDiv (.const (.int 6)) (.param 0) ∧ b = .const (.int 2) := by
    simpa [doubledQuotient, Expr.subterms] using hmem
  cases hparams
  cases hlower

/-- Four rows in two partitions, of which one falls back and is resolved; then the last row is dropped, as it occurred in
the other partition. -/
theorem runPipeline_sequential_quotientOrZero :
    let stages : List Stage := [quotientOrZero, ⟨.unique, []⟩]
    let rows : List Row := [[.int 1], [.int 0], [.int 2], [.int 1]]
    let partitions := Partition.split smallPieces.partitionSize rows
    smallPieces.check = .ok () ∧
      (∀ s ∈ stages, ∀ f, s.action.registered? = some f →
        f ∈ (Workshop.run ⟨{}, []⟩ [.build ["x"] doubledQuotient.lambda.body]).made) ∧
      (∀ q ∈ requestsFrom smallPieces 0 {} partitions stages, FastPath.RepeatsNoTuples q.1.lambda q.2) ∧
      runPipeline smallPieces false stages partitions = .ok ([[[.int 12], [.int 0]], [[.int 6]]],
        ⟨[(quotientOrZero.name,
            { rowsIn := 4, rowsOut := 4, fastPath := 3, fallback := 1, resolved := 1, faults := .one .zeroDivision }),
          ("unique", { rowsIn := 4, rowsOut := 3 })]⟩) ∧
      SameRun (runPipeline smallPieces false stages partitions) (sequentialFrom 0 rows stages) := by
  intro stages rows partitions
  have hcheck : smallPieces.check = .ok () := by rfl
  have hsplit : partitions = [[[.int 1], [.int 0]], [[.int 2], [.int 1]]] := by
    simp [partitions, rows, Partition.split, smallPieces, cut]
  have hmade : ∀ s ∈ stages, ∀ f, s.action.registered? = some f →
      f ∈ (Workshop.run ⟨{}, []⟩ [.build ["x"] doubledQuotient.lambda.body]).made := by
    intro s hs f hf
    simp only [stages, List.mem_cons, List.not_mem_nil, or_false] at hs
    rcases hs with rfl | rfl
    · cases hf
      exact List.mem_singleton.2 rfl
    · cases hf
  obtain ⟨memo, hrun, -⟩ := run_quotientOrZero
  have hrequests : ∀ q ∈ requestsFrom smallPieces 0 {} partitions stages,
      FastPath.RepeatsNoTuples q.1.lambda q.2 := by
    have heq : requestsFrom smallPieces 0 {} partitions stages =
        [(doubledQuotient, .row [.int]), (doubledQuotient, .row [.int])] := by
      rw [hsplit]
      simp only [stages, requestsFrom, hrun]
      rfl
    rw [heq]
    intro q hq
    simp only [List.mem_cons, List.not_mem_nil, or_false, or_self] at hq
    rw [hq]
    exact repeatsNoTuples_doubledQuotient
  refine ⟨hcheck, hmade, hrequests, ?_, runPipeline_sequential hcheck {} _ stages hmade rows hrequests⟩
  rw [hsplit, runPipeline, runFrom_cons_of_ok (congrArg Prod.fst hrun)]
  rfl

end
end Millrace
