import Millrace.Proofs.Pipeline.Conservation
import Millrace.Proofs.Pipeline.Courses

/-!
# How faults are counted

A row that the handlers take meets at least one fault, and each kind of fault is counted once for it
(`course_of_handle`).  A stage is completed only if every row that failed was taken.  So in the tally of a completed
stage no kind of fault is counted more often than rows were resolved or ignored, and all kinds together at least as
often (`run_accounted`).

## Main statements

* `handle_accounted`: a row that is taken.
* `run_accounted`: a completed stage.
* `faults_of_handlers`: the handlers for one fault, and the faults of a stage.
-/

namespace Millrace

/-- No kind of fault is counted more often than rows were taken by handlers, and all kinds together at least as
often. -/
def Tally.Accounted (t : Tally) : Prop :=
  (∀ kind, t.faults.get kind ≤ t.resolved + t.ignored) ∧ t.resolved + t.ignored ≤ t.faults.total

namespace Tally

theorem accounted_zero : Accounted 0 :=
  ⟨fun kind => (FaultCounts.get_zero kind).le, Nat.le_refl 0⟩

theorem accounted_add {a b : Tally} (ha : a.Accounted) (hb : b.Accounted) : (a + b).Accounted := by
  rw [Accounted, add_mk]
  dsimp only
  constructor
  · intro kind
    have := ha.1 kind
    have := hb.1 kind
    rw [FaultCounts.get_add]
    omega
  · have := ha.2
    have := hb.2
    rw [FaultCounts.total_add]
    omega

theorem accounted_sum {ts : List Tally} (h : ∀ t ∈ ts, t.Accounted) : ts.sum.Accounted := by
  induction ts with
  | nil => exact accounted_zero
  | cons t ts ih =>
    obtain ⟨ht, hts⟩ := List.forall_mem_cons.1 h
    rw [List.sum_cons]
    exact accounted_add ht (ih hts)

theorem accounted_of_zero {t : Tally} (hresolved : t.resolved = 0) (hignored : t.ignored = 0)
    (hfaults : t.faults = 0) : t.Accounted := by
  rw [Accounted, hresolved, hignored, hfaults]
  exact accounted_zero

/-- The path of a row is nothing that has to be accounted for. -/
theorem accounted_of_outcome {t : Tally} (h : t.outcome = 0) : t.Accounted :=
  accounted_of_zero (congrArg (·.resolved) h) (congrArg (·.ignored) h) (congrArg (·.faults) h)

end Tally

section
variable {s : Stage} {f : Lambda} {row input : Row} {e : Fault} {kept : Option Row}

/-- A row that a handler takes is accounted for. -/
theorem handle_accounted (hok : s.settle row (s.handle input e).1 = .ok kept) :
    (s.handle input e).2.Accounted := by
  have hone : (s.handle input e).2.resolved + (s.handle input e).2.ignored = 1 := by
    have htaken := taken_of_isHandled (handle_isHandled s input e) hok
    rw [← handle_taken] at htaken
    exact htaken
  have he : e.isFatal = false := by
    by_contra hfatal
    rw [Stage.handle, if_pos (by simpa using hfatal)] at hok
    cases hok
  obtain ⟨tried, met, hcourse, hcounts⟩ := course_of_handle s input he
  rw [Tally.Accounted, hone]
  constructor
  · intro kind
    rw [hcounts]
    split <;> omega
  · have hfirst := hcounts e.kind
    rw [if_pos (List.mem_map_of_mem hcourse.mem_met)] at hfirst
    have := FaultCounts.get_le_total (s.handle input e).2.faults e.kind
    omega

/-- A row that does not fail is accounted for. -/
theorem process_accounted {x : Trial} (hsound : s.faultOf? x = none) : (s.countOf x).Accounted := by
  obtain ⟨compiled, row⟩ := x
  change (s.process compiled row).2.Accounted
  cases hf : s.action.lambda? with
  | none =>
    unfold Stage.process
    split
    · next g hg => cases hf.symm.trans hg
    · exact Tally.accounted_zero
    · exact Tally.accounted_zero
  | some f =>
    obtain ⟨kept, hok⟩ := settle_of_sound hf hsound
    rw [process_of_lambda hf]
    cases handlerCase s.action f compiled row with
    | unasked state path hpath hfinish =>
      have hold : s.finish f compiled row = (state, path) := hfinish s.handlers
      rw [hold]
      exact Tally.accounted_of_outcome hpath
    | asked input e path _ hpath hfinish =>
      have hold : s.finish f compiled row = ((s.handle input e).1, path + (s.handle input e).2) := hfinish s.handlers
      rw [hold] at hok ⊢
      exact Tally.accounted_add (Tally.accounted_of_outcome hpath) (handle_accounted hok)

end

section
variable {s : Stage} {settings : Settings} {cancelled : Bool} {index : Nat} {memo : FastPath.Memo}
  {partitions out : List Partition} {tally : Tally}

/-- All faults of a completed stage are accounted for. -/
theorem run_accounted (hrun : (s.run settings cancelled index memo partitions).1 = .ok (out, tally)) :
    tally.Accounted := by
  by_cases hu : s.action = .unique
  · rw [Stage.run_of_unique hu] at hrun
    have htally : (uniqueRows [] partitions).2 = tally := congrArg Prod.snd (Except.ok.inj hrun)
    rw [← htally, (uniqueRows_flatten [] partitions).2]
    exact Tally.accounted_of_zero rfl rfl rfl
  by_cases hsize : settings.batchSize = 0
  · cases cancelled with
    | true => cases (Stage.run_of_cancelled hu settings index memo partitions).symm.trans hrun
    | false =>
      cases (run_of_no_batches hu hsize index memo partitions).symm.trans hrun
      exact Tally.accounted_zero
  · obtain ⟨hsound, -, rfl⟩ := run_eq_ok hu hsize hrun
    refine Tally.accounted_sum fun t ht => ?_
    obtain ⟨x, hx, rfl⟩ := List.mem_map.1 ht
    exact process_accounted (hsound x hx)

/-- The handlers of a stage deal with a fault in a course on which no handler is tried twice; each kind of fault that is
met there is counted once, and the state that the row comes to decides what else is counted.  So in a completed stage
no kind of fault is counted more often than rows were resolved or ignored, and all kinds together at least as often. -/
theorem faults_of_handlers (s : Stage) :
    (∀ (input : Row) (e : Fault), e.isFatal = false → ∃ tried met, Course s input [] e tried met (s.handle input e).1 ∧
      tried.Nodup ∧ (∀ i ∈ tried, i < s.handlers.length) ∧ (∀ e' ∈ met, e'.isFatal = false) ∧
        (∀ kind, (s.handle input e).2.faults.get kind = if kind ∈ met.map Fault.kind then 1 else 0) ∧
          (s.handle input e).2.withoutFaults = (s.handle input e).1.taken) ∧
    ∀ settings cancelled index memo partitions out tally,
      (s.run settings cancelled index memo partitions).1 = .ok (out, tally) → ∀ kind,
        tally.faults.get kind ≤ tally.resolved + tally.ignored ∧
          tally.resolved + tally.ignored ≤ tally.faults.total := by
  refine ⟨fun input e he => ?_, fun settings cancelled index memo partitions out tally hrun kind => ?_⟩
  · obtain ⟨tried, met, hcourse, hcounts⟩ := course_of_handle s input he
    obtain ⟨hnodup, hfresh⟩ := hcourse.fresh
    exact ⟨tried, met, hcourse, hnodup, fun i hi => (hfresh i hi).2, hcourse.nonfatal he, hcounts,
      handle_taken s input e⟩
  · obtain ⟨hkinds, htotal⟩ := run_accounted hrun
    exact ⟨hkinds kind, htotal⟩

/-- A division by zero whose resolver fails; the fault of the resolver is ignored. -/
theorem faults_of_handlers_retryOutside :
    let s := retryOutside.withHandler (.ignore .index)
    let settings : Settings := { Settings.standard 1 with fastPath := false }
    let tally : Tally :=
      { rowsIn := 1, generalOnly := 1, ignored := 1, faults := .one .zeroDivision + .one .index }
    Fault.isFatal FaultCause.trueDivision = false ∧
      (∃ tried met, Course s [.int 0] [] FaultCause.trueDivision tried met
        (s.handle [.int 0] FaultCause.trueDivision).1 ∧ tried.Nodup ∧ ∀ i ∈ tried, i < 2) ∧
      (∃ out, (s.run settings false 0 {} [[[.int 0]]]).1 = .ok (out, tally)) ∧
        tally.faults.get .index ≤ tally.resolved + tally.ignored ∧
          tally.resolved + tally.ignored ≤ tally.faults.total := by
  intro s settings tally
  obtain ⟨tried, met, hcourse, hnodup, hlt, -⟩ :=
    (faults_of_handlers s).1 [.int 0] FaultCause.trueDivision rfl
  have hsweep : s.sweep 0 (s.trials settings {} [[[.int 0]]]) = .ok ([], tally) := by
    have htrials : s.trials settings {} [[[.int 0]]] = [(none, [.int 0])] := rfl
    rw [htrials]
    simp only [Stage.sweep, Stage.faultOf?, Stage.outputOf, Stage.countOf, s, process_retryOutside_ignore]
    rfl
  obtain ⟨out, hrun, -⟩ := run_of_sweep_ok 0 (by rintro ⟨⟩) (show settings.batchSize ≠ 0 by decide) hsweep
  exact ⟨rfl, ⟨tried, met, hcourse, hnodup, hlt⟩, ⟨out, hrun⟩,
    (faults_of_handlers s).2 settings false 0 {} [[[.int 0]]] out tally hrun .index⟩

end
end Millrace
