import Millrace.Proofs.Lambda.Causes
import Millrace.Proofs.Pipeline.Cancellation
import Millrace.Proofs.Pipeline.Completion
import Millrace.Proofs.Pipeline.Sequential

/-!
# Row widths

Most actions make rows of one width of rows of one width (`Action.width?`).  As long as no action works on a column that
its rows lack, the rows of every stage have the width that follows from the actions before it, and the only faults are
those of lambdas (`process_fits`, `run_of_width`).  A lambda itself has no fault of a missing column, and handlers only
pass on the faults of lambdas.

## Main statements

* `process_fits`: one row.
* `run_of_width`: one stage.
* `runFrom_of_width`: all stages.
-/

namespace Millrace

open FaultCause (isOfLambda)

/-- The width of the rows that an action makes of rows of width `n`, unless the action works on a column that they lack
or makes rows of any width. -/
def Action.width? (n : Nat) : Action → Option Nat
  | map _ => none
  | filter _ | unique => some n
  | mapColumn column _ | withColumn (some column) _ => if column < n then some n else none
  | withColumn none _ => some (n + 1)
  | select columns => if ∀ c ∈ columns, c < n then some columns.length else none

/-- The width of the rows that several actions make, one after the other. -/
def widthAfter (n : Nat) (actions : List Action) : Option Nat := actions.foldlM Action.width? n

theorem widthAfter_append (n : Nat) (actions others : List Action) :
    widthAfter n (actions ++ others) = (widthAfter n actions).bind (widthAfter · others) := by
  rw [widthAfter, List.foldlM_append]
  rfl

section
variable {s : Stage} {a : Action} {f : Lambda} {compiled : Option FastPath.Compiled} {row input : Row}
  {counted : List FaultKind} {handlers : List Handler} {e e' : Fault} {m n : Nat}

/-! ### Faults of lambdas -/

/-- Handlers pass on the faults of lambdas, within the context of a resolver. -/
theorem handleWith_ofLambda (he : isOfLambda e.cause = true)
    (h : (handleWith input counted e handlers).1 = .failed e') : isOfLambda e'.cause = true := by
  fun_induction handleWith input counted e handlers with
  | case1 counted e handlers picked =>
    cases h
    exact he
  | case2 | case3 => cases h
  | case4 counted e handlers kind f others picked next hnext hfatal =>
    cases h
    exact f.eval_ofLambda input next hnext
  | case5 counted e handlers kind f others picked next hnext hfatal state tally hrest ih =>
    rw [hrest] at ih
    exact ih (f.eval_ofLambda input next hnext) h

theorem evaluate_ofLambda (h : (s.evaluate f input).1 = .failed e) : isOfLambda e.cause = true := by
  unfold Stage.evaluate at h
  split at h
  · cases h
  · next e' heval =>
    have he' := f.eval_ofLambda input e' heval
    unfold Stage.handle at h
    split at h
    · cases h
      exact he'
    · exact handleWith_ofLambda he' h

/-- A row that has the column which the lambda sees fails with a fault of a lambda only. -/
theorem finish_ofLambda (hinput : s.action.input? row = some input) (h : (s.finish f compiled row).1 = .failed e) :
    isOfLambda e.cause = true := by
  cases finish_cases s f compiled row with
  | missing hmissing _ => cases hinput.symm.trans hmissing
  | fast _ _ _ hfinish =>
    rw [hfinish] at h
    cases h
  | general _ _ hfinish | fallback _ _ _ hfinish =>
    rw [hfinish] at h
    exact evaluate_ofLambda h

/-! ### Rows -/

/-- The rows that come out have width `m`, and the faults are those of lambdas. -/
structure Fits (m : Nat) (r : RowResult (Option Row)) : Prop where
  width : ∀ row, r = .ok (some row) → row.length = m
  causes : FailsWith isOfLambda r

theorem fits_none : Fits m (.ok none) := ⟨fun _ h => (nomatch h), failsWith_ok none⟩

theorem fits_some (h : row.length = m) : Fits m (.ok (some row)) := by
  refine ⟨fun row' h' => ?_, failsWith_ok _⟩
  cases h'
  exact h

theorem fits_error (h : isOfLambda e.cause = true) : Fits m (.error e) := by
  refine ⟨fun row h' => (nomatch h'), fun e' h' => ?_⟩
  cases h'
  exact h

/-- Where an action has a width, its rows have the column that its lambda sees. -/
theorem input_of_width (ha : a.width? row.length = some m) : ∃ input, a.input? row = some input := by
  cases a with
  | map f | filter f | withColumn column f | select columns | unique => exact ⟨row, rfl⟩
  | mapColumn column f =>
    rw [Action.width?] at ha
    split at ha
    · next hlt => exact ⟨[row[column]], by rw [Action.input?, List.getElem?_eq_getElem hlt]; rfl⟩
    · cases ha

theorem output_fits (ha : a.width? row.length = some m) (hf : a.lambda? = some f) (v : Value) :
    Fits m (a.output row v) := by
  have hreplace (column : Nat) (h : (if column < row.length then some row.length else none) = some m) :
      Fits m (if column < row.length then .ok (some (row.set column v)) else fault (.column column row.length)) := by
    split at h
    · next hlt =>
      cases h
      rw [if_pos hlt]
      exact fits_some List.length_set
    · cases h
  cases a with
  | select columns | unique => cases hf
  | map g => cases ha
  | filter g =>
    cases ha
    rw [Action.output]
    split
    · exact fits_some rfl
    · exact fits_none
  | mapColumn column g => exact hreplace column ha
  | withColumn column g =>
    cases column with
    | some column => exact hreplace column ha
    | none =>
      cases ha
      exact fits_some List.length_append

theorem project_of_lt {columns : List Nat} (h : ∀ c ∈ columns, c < row.length) :
    ∃ row', Stage.project row columns = .ok row' ∧ row'.length = columns.length := by
  induction columns with
  | nil => exact ⟨[], rfl, rfl⟩
  | cons c columns ih =>
    obtain ⟨hc, hcolumns⟩ := List.forall_mem_cons.1 h
    obtain ⟨rest, hrest, hlength⟩ := ih hcolumns
    refine ⟨row[c] :: rest, ?_, congrArg Nat.succ hlength⟩
    unfold Stage.project at hrest ⊢
    rw [List.mapM_cons, List.getElem?_eq_getElem hc, hrest]
    rfl

/-- A stage whose action has a width makes rows of that width. -/
theorem process_fits (hs : s.action.width? row.length = some m) (compiled : Option FastPath.Compiled) :
    Fits m (s.process compiled row).1 := by
  cases hf : s.action.lambda? with
  | some f =>
    obtain ⟨input, hinput⟩ := input_of_width hs
    rw [process_of_lambda hf]
    cases hstate : (s.finish f compiled row).1 with
    | pending | fastFailed r | dropped => exact fits_none
    | fastValue v | value v | resolved v => exact output_fits hs hf v
    | failed e => exact fits_error (finish_ofLambda hinput hstate)
  | none =>
    cases ha : s.action with
    | map f | filter f | mapColumn column f | withColumn column f =>
      rw [ha] at hf
      cases hf
    | select columns =>
      rw [ha, Action.width?] at hs
      split at hs
      · next hlt =>
        cases hs
        obtain ⟨row', hproject, hlength⟩ := project_of_lt hlt
        simp only [Stage.process, ha, Action.lambda?, hproject]
        exact fits_some hlength
      · cases hs
    | unique =>
      rw [ha] at hs
      cases hs
      simp only [Stage.process, ha, Action.lambda?]
      exact fits_some rfl

/-! ### Stages -/

variable {settings : Settings} {memo : FastPath.Memo} {partitions : List Partition}

/-- All rows of the partitions have this width. -/
def HasWidth (n : Nat) (partitions : List Partition) : Prop := ∀ row ∈ partitions.flatten, row.length = n

theorem width_of_trial (hrows : HasWidth n partitions) {x : Trial} (hx : x ∈ s.trials settings memo partitions) :
    x.2.length = n := by
  apply hrows
  rw [← trials_rows s settings memo partitions]
  exact List.mem_map_of_mem hx

theorem width_of_outputOf {x : Trial} (hs : s.action.width? x.2.length = some m) :
    ∀ row ∈ s.outputOf x, row.length = m := by
  intro row hrow
  unfold Stage.outputOf at hrow
  split at hrow
  · next kept hkept =>
    cases kept with
    | none => cases hrow
    | some row' =>
      cases List.mem_singleton.1 hrow
      exact (process_fits hs x.1).width row hkept
  · cases hrow

theorem hasWidth_uniqueRows (hrows : HasWidth n partitions) : HasWidth n (uniqueRows [] partitions).1 := by
  intro row hrow
  rw [(uniqueRows_flatten [] partitions).1, firstOccurrences_eq_eraseDups, List.mem_eraseDups] at hrow
  exact hrows row (List.mem_of_mem_filter hrow)

/-- The rows that come out have width `m`, and rows fail in lambdas only. -/
structure RunFits {α : Type} (m : Nat) (r : Except Failure (List Partition × α)) : Prop where
  width : ∀ out x, r = .ok (out, x) → HasWidth m out
  causes : ∀ failure e, r = .error failure → failure.fault? = some e → isOfLambda e.cause = true

theorem run_of_width (hsize : settings.batchSize ≠ 0) (hs : s.action.width? n = some m)
    (hrows : HasWidth n partitions) (cancelled : Bool) (index : Nat) (memo : FastPath.Memo) :
    RunFits m (s.run settings cancelled index memo partitions).1 := by
  refine ⟨fun out tally hrun => ?_, fun failure e hrun he => ?_⟩
  · by_cases hu : s.action = .unique
    · have hout : uniqueRows [] partitions = (out, tally) :=
        Except.ok.inj ((congrArg Prod.fst (Stage.run_of_unique hu settings cancelled index memo partitions)).symm.trans
          hrun)
      rw [hu] at hs
      cases hs
      have hunique := hasWidth_uniqueRows hrows
      rw [hout] at hunique
      exact hunique
    · obtain ⟨-, rfl, -⟩ := run_eq_ok hu hsize hrun
      intro row hrow
      rw [flatten_filter_nonempty] at hrow
      obtain ⟨rows, hmem, hrow⟩ := List.mem_flatten.1 hrow
      obtain ⟨share, hshare, rfl⟩ := List.mem_map.1 hmem
      obtain ⟨row', hrow', hrow⟩ := List.mem_flatMap.1 hrow
      have hgiven : share.2 ∈ (s.equip settings memo partitions).1.map (·.2) := List.mem_map_of_mem hshare
      rw [equip_rows] at hgiven
      refine width_of_outputOf ?_ row hrow
      rw [hrows row' (List.mem_flatten_of_mem hgiven hrow')]
      exact hs
  · rcases run_eq_error hsize hrun with rfl | ⟨x, hx, k, e', hfault, rfl⟩
    · cases he
    · cases he
      have hx' : s.action.width? x.2.length = some m := by
        rw [width_of_trial hrows hx]
        exact hs
      unfold Stage.faultOf? at hfault
      split at hfault
      · cases hfault
      · next hprocess =>
        cases hfault
        exact (process_fits hx' x.1).causes e hprocess

theorem runFrom_of_width (hsize : settings.batchSize ≠ 0) {stages : List Stage}
    (hstages : widthAfter n (stages.map (·.action)) = some m) (hrows : HasWidth n partitions) (cancelled : Bool)
    (index : Nat) (memo : FastPath.Memo) : RunFits m (runFrom settings cancelled index memo partitions stages) := by
  induction stages generalizing n index memo partitions with
  | nil =>
    cases hstages
    refine ⟨fun out report hrun => ?_, fun failure e hrun => (nomatch hrun)⟩
    cases hrun
    exact hrows
  | cons s stages ih =>
    obtain ⟨k, hs, hrest⟩ := Option.bind_eq_some_iff.1 hstages
    have hfirst := run_of_width hsize hs hrows cancelled index memo
    refine ⟨fun out report h => ?_, fun failure e h he => ?_⟩
    · obtain ⟨given, tally, rest, hrun, hlater, -⟩ := runFrom_cons_eq_ok h
      exact (ih hrest (hfirst.width given tally hrun) (index + 1) _).width out rest hlater
    · rw [runFrom] at h
      rcases bind_eq_error h with hrun | ⟨⟨given, tally⟩, hrun, h⟩
      · exact hfirst.causes failure e hrun he
      · rcases bind_eq_error h with hlater | ⟨_, _, h⟩
        · exact (ih hrest (hfirst.width given tally hrun) (index + 1) _).causes failure e hlater he
        · cases h

end
end Millrace
