import Millrace.Proofs.FastPath.Typing
import Millrace.Proofs.Inference.Unanimous
import Millrace.Proofs.Pipeline.Completion
import Millrace.Proofs.Pipeline.Sequential

/-!
# Rows on which a fast path gives up

A fast path gives up on a row of its schema only where the lambda fails.  When schemas are guessed unanimously from
whole partitions, every row is of the schema of its partition (`conforms_of_compile`), so a row that falls back fails on
the general path, and a stage is only completed if a handler takes it (`process_covered`).  No partition grows from
stage to stage, so this holds all along a pipeline (`fallback_le_handled`).

## Main statements

* `conforms_of_compile`: rows are of the schema that was guessed from them.
* `process_covered`: a row that falls back is taken by a handler.
* `fallback_le_handled`: all completed stages of a pipeline.
-/

namespace Millrace

/-! ### Tallies -/

/-- The rows on which fast paths gave up are no more than those that a handler took. -/
def Tally.Covered (t : Tally) : Prop := t.fallback ≤ t.resolved + t.ignored

theorem Tally.covered_add {a b : Tally} (ha : a.Covered) (hb : b.Covered) : (a + b).Covered := by
  unfold Covered at *
  simp only [add_mk]
  omega

theorem Tally.covered_sum {ts : List Tally} (h : ∀ t ∈ ts, t.Covered) : ts.sum.Covered := by
  induction ts with
  | nil => exact Nat.le_refl 0
  | cons t ts ih =>
    obtain ⟨ht, hts⟩ := List.forall_mem_cons.1 h
    rw [List.sum_cons]
    exact covered_add ht (ih hts)

/-! ### Rows -/

section
variable {s : Stage} {f : Lambda} {row input : Row} {c : FastPath.Compiled} {kept : Option Row}

/-- The handlers and the evaluator do not count rows that fall back. -/
theorem fallback_of_taken {t : Tally} {state : RowState} (h : t.withoutFaults = state.taken) :
    t.fallback = 0 := by
  have hpaths := (paths_of_taken h).1
  rw [Tally.paths] at hpaths
  omega

theorem covered_of_taken {t : Tally} {state : RowState} (h : t.withoutFaults = state.taken) : t.Covered := by
  rw [Tally.Covered, fallback_of_taken h]
  exact Nat.zero_le _

/-- When the lambda fails on the row, the evaluator hands it on, and a handler has to take it. -/
theorem evaluate_covered {e : Fault} (heval : f.eval input = .error e)
    (hok : s.settle row (s.evaluate f input).1 = .ok kept) :
    (({ fallback := 1 } : Tally) + (s.evaluate f input).2).Covered := by
  have hhandle : s.evaluate f input = s.handle input e := by
    simp only [Stage.evaluate, heval]
  rw [hhandle] at hok ⊢
  have hfallback := fallback_of_taken (handle_taken s input e)
  have hone : (s.handle input e).2.resolved + (s.handle input e).2.ignored = 1 := by
    have htaken := taken_of_isHandled (handle_isHandled s input e) hok
    rw [← handle_taken] at htaken
    exact htaken
  simp only [Tally.Covered, Tally.add_mk, hfallback]
  omega

/-- The fast path that is tried on a row gives up only if the lambda fails on what it sees of the row. -/
def Stage.Forced (s : Stage) (x : Trial) : Prop :=
  ∀ f c input r, s.action.lambda? = some f → x.1 = some c → s.action.input? x.2 = some input →
    c.call input = .error r → ∃ e, f.eval input = .error e

/-- A row that falls back for a reason is taken by a handler, or it fails. -/
theorem process_covered {x : Trial} (hf : s.action.lambda? = some f) (hforced : s.Forced x)
    (hsound : s.faultOf? x = none) : (s.countOf x).Covered := by
  obtain ⟨compiled, row⟩ := x
  obtain ⟨kept, hok⟩ := settle_of_sound hf hsound
  change (s.process compiled row).2.Covered
  rw [process_of_lambda hf]
  change (s.finish f compiled row).2.Covered
  cases finish_cases s f compiled row with
  | missing _ hfinish =>
    rw [hfinish]
    exact covered_of_taken (handle_taken s row _)
  | @general input _ _ hfinish =>
    rw [hfinish]
    exact Tally.covered_add (Nat.zero_le _) (covered_of_taken (evaluate_taken s f input))
  | fast _ _ _ hfinish =>
    rw [hfinish]
    exact Nat.zero_le _
  | @fallback input c r hinput hc hcall hfinish =>
    obtain ⟨e, heval⟩ := hforced f c input r hf hc hinput hcall
    rw [hfinish] at hok ⊢
    exact evaluate_covered heval hok

end

/-! ### Guessed schemas -/

section
variable {inference : Inference} {a : Action} {rows : Partition} {row input : Row} {f : Lambda}
  {c : FastPath.Compiled}

theorem compile_unspecialized : FastPath.compile f .unspecialized ≠ .ok c := by
  intro h
  cases h

/-- When a schema is guessed unanimously from all rows of a partition, what the lambda sees of each of them is of the
schema that it is compiled for. -/
theorem conforms_of_compile (hone : inference.threshold = 1) (hsample : rows.length ≤ inference.sampleSize)
    (hlen : rows.length < 2 ^ 53) (hcompile : FastPath.compile f (a.schema (inference.infer rows)) = .ok c)
    (hrow : row ∈ rows) (hinput : a.input? row = some input) :
    (a.schema (inference.infer rows)).conforms input = true := by
  cases hinfer : inference.infer rows with
  | unspecialized =>
    have hschema : a.schema .unspecialized = .unspecialized := by
      cases a <;> rfl
    rw [hinfer, hschema] at hcompile
    exact absurd hcompile compile_unspecialized
  | row types =>
    rw [hinfer] at hcompile
    have haccepts : ValueType.acceptsAll types row = true := by
      refine Inference.acceptsAll_of_infer hone hlen hinfer row ?_
      rw [List.take_of_length_le hsample]
      exact hrow
    cases a with
    | map f | filter f | withColumn column f | select columns | unique =>
      cases hinput
      exact haccepts
    | mapColumn column f =>
      obtain ⟨v, hv, rfl⟩ := Option.map_eq_some_iff.1 hinput
      have hschema : Action.schema (.mapColumn column f) (.row types) =
          (types[column]?.map fun t => Schema.row [t]).getD .unspecialized := rfl
      cases ht : types[column]? with
      | none =>
        rw [hschema, ht] at hcompile
        exact absurd hcompile compile_unspecialized
      | some t =>
        have htype : t.accepts v = true := accepts_of_acceptsAll haccepts ht hv
        rw [hschema, ht]
        change (t.accepts v && true) = true
        rw [htype]
        rfl

end

/-! ### Stages and pipelines -/

section
variable {s : Stage} {settings : Settings} {cancelled : Bool} {index : Nat} {made : List Registered}
  {served : List (LambdaId × Schema)} {memo : FastPath.Memo} {partitions out : List Partition} {tally : Tally}
  {f : Lambda}

/-- With unanimous inference over whole partitions, every row that falls back does so for a reason. -/
theorem forced_of_unanimous (hone : settings.inference.threshold = 1)
    (hsize : ∀ rows ∈ partitions, rows.length ≤ settings.inference.sampleSize ∧ rows.length < 2 ^ 53)
    (hsame : ∀ f ∈ made, ∀ g ∈ made, f.id = g.id → f.lambda = g.lambda)
    (hs : ∀ f, s.action.registered? = some f → f ∈ made) (hmemo : memo.Sound made served) :
    ∀ x ∈ s.trials settings memo partitions, s.Forced x := by
  intro x hx f c input r hf hc hinput hcall
  obtain ⟨rows, hrows, hfresh, hrow⟩ := trials_fresh hsame hs hmemo settings partitions x hx
  obtain ⟨hsample, hlen⟩ := hsize rows hrows
  obtain ⟨-, hcompile⟩ := compile_of_freshPath hf (hfresh.symm.trans hc)
  have hconforms := conforms_of_compile hone hsample hlen hcompile hrow hinput
  obtain ⟨e, heval, -⟩ := (FastPath.call_eq_error hcompile).2 hconforms r hcall
  exact ⟨e, heval⟩

theorem run_covered (hsize : settings.batchSize ≠ 0) (hf : s.action.lambda? = some f)
    (hforced : ∀ x ∈ s.trials settings memo partitions, s.Forced x)
    (hrun : (s.run settings cancelled index memo partitions).1 = .ok (out, tally)) : tally.Covered := by
  obtain ⟨hsound, -, rfl⟩ := run_eq_ok (ne_unique_of_lambda hf) hsize hrun
  refine Tally.covered_sum fun t ht => ?_
  obtain ⟨x, hx, rfl⟩ := List.mem_map.1 ht
  exact process_covered hf (hforced x hx) (hsound x hx)

/-- With unanimous inference over whole partitions, no row of a pipeline falls back without need: in every completed
stage with a lambda, the rows that fell back failed and were taken by a handler.  The report of a pipeline that comes to
its end is that of its completed stages. -/
theorem fallback_le_handled (hcheck : settings.check = .ok ()) (hone : settings.inference.threshold = 1)
    (hsize : ∀ rows ∈ partitions, rows.length ≤ settings.inference.sampleSize ∧ rows.length < 2 ^ 53)
    (cancelled : Bool) (registry : Registry) (calls : List MakeCall) (stages : List Stage)
    (hmade : ∀ s ∈ stages, ∀ f, s.action.registered? = some f → f ∈ (Workshop.run ⟨registry, []⟩ calls).made) :
    (∀ out report, runPipeline settings cancelled stages partitions = .ok (out, report) →
      report.stages = (completedFrom settings cancelled 0 {} partitions stages).map fun x => (x.1.name, x.2)) ∧
    ∀ x ∈ completedFrom settings cancelled 0 {} partitions stages, x.1.action.lambda? ≠ none →
      x.2.fallback ≤ x.2.resolved + x.2.ignored := by
  have hbatch := batchSize_of_check hcheck
  have hsame := (Workshop.sound_run registry calls).same
  refine ⟨fun out report hrun => report_of_runFrom hrun, fun x hx hlambda => ?_⟩
  obtain ⟨hmem, index, memo, given, out, ⟨⟨served, hmemo⟩, hgiven⟩, hrun⟩ := completedFrom_induction
    (P := fun memo given => (∃ served, memo.Sound (Workshop.run ⟨registry, []⟩ calls).made served) ∧
      ∀ rows ∈ given, rows.length ≤ min settings.inference.sampleSize (2 ^ 53 - 1))
    ⟨⟨[], FastPath.Memo.sound_empty _⟩, fun rows hrows => by have := hsize rows hrows; omega⟩
    (fun s hs index memo given out tally ⟨⟨served, hmemo⟩, hgiven⟩ hrun =>
      ⟨run_sound hsame (hmade s hs) hmemo settings cancelled index given, length_run_le hbatch hgiven hrun⟩) x hx
  obtain ⟨f, hf⟩ := Option.ne_none_iff_exists'.1 hlambda
  refine run_covered hbatch hf (forced_of_unanimous hone (fun rows hrows => ?_) hsame (hmade _ hmem) hmemo) hrun
  have := hgiven rows hrows
  omega

/-- `lambda x: 1 / x`, where divisions by zero are ignored -/
def reciprocal : Stage :=
  ⟨.map ⟨1, ["x"], .binary .div (.const (.int 1)) (.param 0), none⟩, [.ignore .zeroDivision]⟩

/-- The reciprocal of zero is ignored. -/
theorem process_reciprocal_zero {c : FastPath.Compiled} {r : FastPath.Reason}
    (hcall : c.call [.int 0] = .error r) :
    reciprocal.process (some c) [.int 0] =
      (.ok none, { fallback := 1, ignored := 1, faults := .one .zeroDivision }) := by
  have hhandle : reciprocal.handle [.int 0] FaultCause.trueDivision =
      (.dropped, { faults := .one .zeroDivision } + { ignored := 1 }) := handle_of_ignore rfl rfl
  have hevaluate : reciprocal.evaluate ⟨["x"], .binary .div (.const (.int 1)) (.param 0), none⟩ [.int 0] =
      (.dropped, { faults := .one .zeroDivision } + { ignored := 1 }) := hhandle
  rw [process_of_lambda rfl, finish_of_refusal rfl hcall, hevaluate]
  rfl

theorem fallback_le_handled_reciprocal :
    let partitions : List Partition := [[[.int 1], [.int 0]]]
    let calls : List MakeCall := [.build ["x"] (.binary .div (.const (.int 1)) (.param 0))]
    let tally : Tally :=
      { rowsIn := 2, rowsOut := 1, fastPath := 1, fallback := 1, ignored := 1, faults := .one .zeroDivision }
    (Settings.standard 1).check = .ok () ∧ (Settings.standard 1).inference.threshold = 1 ∧
      (∀ rows ∈ partitions, rows.length ≤ (Settings.standard 1).inference.sampleSize ∧ rows.length < 2 ^ 53) ∧
      (∀ s ∈ [reciprocal], ∀ f, s.action.registered? = some f → f ∈ (Workshop.run ⟨{}, []⟩ calls).made) ∧
      (reciprocal, tally) ∈ completedFrom (.standard 1) false 0 {} partitions [reciprocal] ∧
      tally.fallback ≤ tally.resolved + tally.ignored := by
  intro partitions calls tally
  have hcheck : (Settings.standard 1).check = .ok () := by rfl
  have hsize : ∀ rows ∈ partitions,
      rows.length ≤ (Settings.standard 1).inference.sampleSize ∧ rows.length < 2 ^ 53 := by
    intro rows hrows
    rw [List.mem_singleton.1 hrows]
    decide
  have hmade : ∀ s ∈ [reciprocal], ∀ f, s.action.registered? = some f →
      f ∈ (Workshop.run ⟨{}, []⟩ calls).made := by
    intro s hs f hf
    rw [List.mem_singleton.1 hs] at hf
    cases hf
    exact List.mem_singleton.2 rfl
  obtain ⟨c, htrials, hone, hzero⟩ : ∃ c,
      reciprocal.trials (.standard 1) {} partitions = [(some c, [.int 1]), (some c, [.int 0])] ∧
      reciprocal.process (some c) [.int 1] = (.ok (some [.float 1]), { fastPath := 1 }) ∧
      c.call [.int 0] = .error .zeroDivision := ⟨_, rfl, rfl, rfl⟩
  have hsweep : reciprocal.sweep 0 (reciprocal.trials (.standard 1) {} partitions) = .ok ([[.float 1]], tally) := by
    rw [htrials]
    simp only [Stage.sweep, Stage.faultOf?, Stage.outputOf, Stage.countOf, hone, process_reciprocal_zero hzero]
    rfl
  have hmem : (reciprocal, tally) ∈ completedFrom (.standard 1) false 0 {} partitions [reciprocal] := by
    obtain ⟨out, hrun, -⟩ := run_of_sweep_ok 0 (by rintro ⟨⟩) (batchSize_of_check hcheck) hsweep
    rw [completedFrom_cons_of_ok hrun]
    exact List.mem_cons_self ..
  have hhandled := (fallback_le_handled hcheck rfl hsize false {} calls [reciprocal] hmade).2 _ hmem (by rintro ⟨⟩)
  exact ⟨hcheck, rfl, hsize, hmade, hmem, hhandled⟩

end
end Millrace
