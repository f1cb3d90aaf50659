import Millrace.Proofs.Pipeline.Tally
import Millrace.Pipeline.RowState

/-!
# Rows and their handlers

A row whose lambda fails goes through the handlers of the stage until one of them ends it.  What is counted for it,
apart from its faults, depends on its last state only (`finish_of_refusal` and its siblings), and a kind of fault that
is ignored does not come out of the handlers (`handleWith_ignored`).  A stage that replaces a column may still fail
with such a kind: the fault of a missing column arises after the handlers are done (`process_ignored`).

## Main statements

* `evaluate_taken`: what is counted for a row that the evaluator worked on.
* `process_ignored`: the only fault of an ignored kind that ends a row.
-/

namespace Millrace

/-! ### Picking a handler -/

namespace Handler

variable {kind : FaultKind} {hs others : List Handler} {h : Handler}

/-- The handler that is picked takes this kind of fault, and the others are kept. -/
theorem perm_of_pick? (picked : pick? kind hs = some (h, others)) : h.kind = kind ∧ hs.Perm (h :: others) := by
  induction hs generalizing h others with
  | nil => cases picked
  | cons g rest ih =>
    unfold pick? at picked
    split at picked
    · next hkind =>
      cases picked
      exact ⟨hkind, .refl _⟩
    · obtain ⟨⟨_, left⟩, hfound, hsame⟩ := Option.map_eq_some_iff.1 picked
      cases hsame
      obtain ⟨hkind, hperm⟩ := ih hfound
      exact ⟨hkind, (hperm.cons g).trans (.swap h g left)⟩

/-- Whenever a handler takes this kind of fault, one is picked. -/
theorem kind_ne_of_pick?_none (hnone : pick? kind hs = none) : ∀ h ∈ hs, h.kind ≠ kind := by
  induction hs with
  | nil => exact fun h hh => (nomatch hh)
  | cons g rest ih =>
    unfold pick? at hnone
    split at hnone
    · cases hnone
    · next hkind => exact List.forall_mem_cons.2 ⟨hkind, ih (Option.map_eq_none_iff.1 hnone)⟩

end Handler

section
variable {s : Stage} {f : Lambda} {input : Row} {counted : List FaultKind} {e : Fault} {kind : FaultKind}
  {hs others : List Handler}

/-- A fault that no handler takes ends the row. -/
theorem handleWith_of_none (hnone : Handler.pick? e.kind hs = none) :
    handleWith input counted e hs = (.failed e, {}) := by
  rw [handleWith]
  split
  · rfl
  · next hpick => cases hnone.symm.trans hpick
  · next hpick => cases hnone.symm.trans hpick

/-- A resolver gives the value of its lambda, or hands its own fault on. -/
theorem handleWith_of_resolve (hpick : Handler.pick? e.kind hs = some (.resolve kind f, others)) :
    handleWith input counted e hs =
      match f.eval input with
      | .ok v => (.resolved v, { resolved := 1 })
      | .error next =>
        if next.isFatal then (.failed (next.within "resolver"), {})
        else
          let (state, tally) := handleWith input (next.kind :: counted) (next.within "resolver") others
          (state, if counted.contains next.kind then tally else { faults := .one next.kind } + tally) := by
  rw [handleWith]
  split
  · next hnone => cases hpick.symm.trans hnone
  · next hignore => cases hpick.symm.trans hignore
  · next hresolve =>
    cases hpick.symm.trans hresolve
    rfl

/-- A fault whose handler ignores it drops the row. -/
theorem handleWith_of_ignore (hpick : Handler.pick? e.kind hs = some (.ignore kind, others)) :
    handleWith input counted e hs = (.dropped, { ignored := 1 }) := by
  rw [handleWith]
  split
  · next hnone => cases hpick.symm.trans hnone
  · rfl
  · next hresolve => cases hpick.symm.trans hresolve

/-- A row that fails with a fault which the first handler for it ignores is dropped. -/
theorem handle_of_ignore (hfatal : e.isFatal = false)
    (hpick : Handler.pick? e.kind s.handlers = some (.ignore kind, others)) :
    s.handle input e = (.dropped, { faults := .one e.kind } + { ignored := 1 }) := by
  rw [Stage.handle, hfatal, handleWith_of_ignore hpick]
  rfl

/-- A row that fails with a fault which the first handler for it resolves takes the value of the resolver. -/
theorem handle_of_resolve {v : Value} (hfatal : e.isFatal = false)
    (hpick : Handler.pick? e.kind s.handlers = some (.resolve kind f, others)) (hv : f.eval input = .ok v) :
    s.handle input e = (.resolved v, { faults := .one e.kind } + { resolved := 1 }) := by
  rw [Stage.handle, hfatal, handleWith_of_resolve hpick, hv]
  rfl

end

/-! ### What is counted -/

/-- The tally without the faults that were met. -/
def Tally.withoutFaults (t : Tally) : Tally := { t with faults := 0 }

theorem Tally.withoutFaults_add (a b : Tally) : (a + b).withoutFaults = a.withoutFaults + b.withoutFaults := by
  simp only [add_mk, withoutFaults, add_zero]

/-- What is counted when a row comes to this state by the handlers. -/
def RowState.taken : RowState → Tally
  | resolved _ => { resolved := 1 }
  | dropped => { ignored := 1 }
  | _ => 0

section
variable {s : Stage} {f : Lambda} {compiled : Option FastPath.Compiled} {c : FastPath.Compiled}
  {row input : Row} {kind : FaultKind} {counted : List FaultKind} {e e' : Fault} {handlers : List Handler}

theorem handleWith_taken (input : Row) (counted : List FaultKind) (e : Fault) (handlers : List Handler) :
    (handleWith input counted e handlers).2.withoutFaults = (handleWith input counted e handlers).1.taken := by
  fun_induction handleWith input counted e handlers with
  | case1 | case2 | case3 | case4 => rfl
  | case5 counted e handlers kind g others picked next hnext hfatal state tally hrest ih =>
    rw [hrest] at ih
    dsimp only at ih ⊢
    split
    · exact ih
    · rw [Tally.withoutFaults_add, ih]
      exact zero_add _

theorem handle_taken (s : Stage) (input : Row) (e : Fault) :
    (s.handle input e).2.withoutFaults = (s.handle input e).1.taken := by
  unfold Stage.handle
  split
  · rfl
  · dsimp only
    rw [Tally.withoutFaults_add, handleWith_taken]
    exact zero_add _

/-- What the evaluator counts for a row depends on the state that the row comes to. -/
theorem evaluate_taken (s : Stage) (f : Lambda) (input : Row) :
    (s.evaluate f input).2.withoutFaults = (s.evaluate f input).1.taken := by
  unfold Stage.evaluate
  split
  · rfl
  · exact handle_taken s input _

/-- The evaluator and the handlers count no path. -/
theorem paths_of_taken {t : Tally} {state : RowState} (h : t.withoutFaults = state.taken) :
    t.paths = 0 ∧ t.ignored = state.taken.ignored := by
  have hpaths : t.withoutFaults.paths = 0 := by
    rw [h]
    cases state <;> rfl
  have hignored : t.withoutFaults.ignored = state.taken.ignored := by rw [h]
  exact ⟨hpaths, hignored⟩

/-! ### The last state -/

/-- Whether a row is in a state that the handlers brought it to. -/
def RowState.isHandled : RowState → Bool
  | resolved _ | dropped | failed _ => true
  | _ => false

theorem handleWith_isHandled (input : Row) (counted : List FaultKind) (e : Fault) (handlers : List Handler) :
    (handleWith input counted e handlers).1.isHandled = true := by
  fun_induction handleWith input counted e handlers with
  | case1 | case2 | case3 | case4 => rfl
  | case5 counted e handlers kind g others picked next hnext hfatal state tally hrest ih =>
    rw [hrest] at ih
    exact ih

theorem handle_isHandled (s : Stage) (input : Row) (e : Fault) :
    (s.handle input e).1.isHandled = true := by
  unfold Stage.handle
  split
  · rfl
  · exact handleWith_isHandled input [e.kind] e s.handlers

theorem isFinished_of_isHandled {state : RowState} (h : state.isHandled = true) : state.isFinished = true := by
  cases state with
  | pending | fastFailed r => cases h
  | fastValue v | value v | resolved v | dropped | failed e => rfl

theorem evaluate_isFinished (s : Stage) (f : Lambda) (input : Row) :
    (s.evaluate f input).1.isFinished = true := by
  unfold Stage.evaluate
  split
  · rfl
  · exact isFinished_of_isHandled (handle_isHandled s input _)

theorem advance_of_isFinished {state : RowState} (h : state.isFinished = true) (s : Stage) (f : Lambda)
    (compiled : Option FastPath.Compiled) (input : Row) : s.advance f compiled input state = (state, {}) := by
  cases state with
  | pending | fastFailed reason => cases h
  | fastValue v | value v | resolved v | dropped | failed e => rfl

/-- A row without the column that the lambda sees goes to the handlers. -/
theorem finish_of_missing (hinput : s.action.input? row = none) :
    s.finish f compiled row = s.handle row (FaultCause.columnRead row.length) := by
  simp only [Stage.finish, hinput]

/-- Without a fast path, the evaluator works on the row. -/
theorem finish_of_general (hinput : s.action.input? row = some input) :
    s.finish f none row = ((s.evaluate f input).1, { generalOnly := 1 } + (s.evaluate f input).2 + 0) := by
  have hfirst : s.advance f none input .pending =
      ((s.evaluate f input).1, { generalOnly := 1 } + (s.evaluate f input).2) := rfl
  have hlast := advance_of_isFinished (evaluate_isFinished s f input) s f none input
  simp only [Stage.finish, hinput, hfirst, hlast]
  rfl

/-- A value of the fast path is the value of the row. -/
theorem finish_of_call {v : Value} (hinput : s.action.input? row = some input) (hcall : c.call input = .ok v) :
    s.finish f (some c) row = (.fastValue v, { fastPath := 1 } + 0) := by
  simp only [Stage.finish, hinput, Stage.advance, hcall]
  rfl

/-- When the fast path gives up, the evaluator works on the row. -/
theorem finish_of_refusal {r : FastPath.Reason} (hinput : s.action.input? row = some input)
    (hcall : c.call input = .error r) :
    s.finish f (some c) row = ((s.evaluate f input).1, { fallback := 1 } + (s.evaluate f input).2) := by
  simp only [Stage.finish, hinput, Stage.advance, hcall]

/-- The ways in which a row comes to its last state. -/
inductive FinishCase (s : Stage) (f : Lambda) (compiled : Option FastPath.Compiled) (row : Row) : Prop
  | missing : s.action.input? row = none →
      s.finish f compiled row = s.handle row (FaultCause.columnRead row.length) → FinishCase s f compiled row
  | general {input : Row} : s.action.input? row = some input → compiled = none →
      s.finish f compiled row = ((s.evaluate f input).1, { generalOnly := 1 } + (s.evaluate f input).2) →
        FinishCase s f compiled row
  | fast {input : Row} {c : FastPath.Compiled} {v : Value} : s.action.input? row = some input → compiled = some c →
      c.call input = .ok v → s.finish f compiled row = (.fastValue v, { fastPath := 1 }) → FinishCase s f compiled row
  | fallback {input : Row} {c : FastPath.Compiled} {r : FastPath.Reason} : s.action.input? row = some input →
      compiled = some c → c.call input = .error r →
      s.finish f compiled row = ((s.evaluate f input).1, { fallback := 1 } + (s.evaluate f input).2) →
        FinishCase s f compiled row

theorem finish_cases (s : Stage) (f : Lambda) (compiled : Option FastPath.Compiled) (row : Row) :
    FinishCase s f compiled row := by
  cases hinput : s.action.input? row with
  | none => exact .missing hinput (finish_of_missing hinput)
  | some input =>
    cases compiled with
    | none =>
      refine .general hinput rfl ?_
      rw [finish_of_general hinput, add_zero]
    | some c =>
      cases hcall : c.call input with
      | ok v =>
        refine .fast hinput rfl hcall ?_
        rw [finish_of_call hinput hcall, add_zero]
      | error r => exact .fallback hinput rfl hcall (finish_of_refusal hinput hcall)

/-! ### Ignored faults -/

/-- No fault of a kind that is ignored comes out of the handlers. -/
theorem handleWith_ignored (hkind : kind.isFatal = false) (hignore : Handler.ignore kind ∈ handlers)
    (hfailed : (handleWith input counted e handlers).1 = .failed e') : e'.kind ≠ kind := by
  fun_induction handleWith input counted e handlers with
  | case1 counted e handlers picked =>
    cases hfailed
    exact (Handler.kind_ne_of_pick?_none picked _ hignore).symm
  | case2 => cases hfailed
  | case3 => cases hfailed
  | case4 counted e handlers k g others picked next hnext hfatal =>
    cases hfailed
    rintro rfl
    cases hkind.symm.trans hfatal
  | case5 counted e handlers k g others picked next hnext hfatal state tally hrest ih =>
    -- the handler that was used up is a resolver, so the other one is still there
    have hmem := (Handler.perm_of_pick? picked).2.mem_iff.1 hignore
    rcases List.mem_cons.1 hmem with hsame | hmem
    · cases hsame
    · rw [hrest] at ih
      exact ih hmem hfailed

theorem handle_ignored (hkind : kind.isFatal = false) (hignore : .ignore kind ∈ s.handlers)
    (hfailed : (s.handle input e).1 = .failed e') : e'.kind ≠ kind := by
  unfold Stage.handle at hfailed
  split at hfailed
  · next hfatal =>
    cases hfailed
    rintro rfl
    cases hkind.symm.trans hfatal
  · exact handleWith_ignored hkind hignore hfailed

theorem evaluate_ignored (hkind : kind.isFatal = false) (hignore : .ignore kind ∈ s.handlers)
    (hfailed : (s.evaluate f input).1 = .failed e) : e.kind ≠ kind := by
  unfold Stage.evaluate at hfailed
  split at hfailed
  · cases hfailed
  · exact handle_ignored hkind hignore hfailed

/-- No row comes to an end with a fault of a kind that is ignored, before its value is written back. -/
theorem finish_ignored (hkind : kind.isFatal = false) (hignore : .ignore kind ∈ s.handlers)
    (hfailed : (s.finish f compiled row).1 = .failed e) : e.kind ≠ kind := by
  cases finish_cases s f compiled row with
  | missing _ hfinish =>
    rw [hfinish] at hfailed
    exact handle_ignored hkind hignore hfailed
  | fast _ _ _ hfinish =>
    rw [hfinish] at hfailed
    cases hfailed
  | general _ _ hfinish | fallback _ _ _ hfinish =>
    rw [hfinish] at hfailed
    exact evaluate_ignored hkind hignore hfailed

/-! ### Writing a value back -/

/-- The column that the value of the lambda replaces. -/
def Action.target? : Action → Option Nat
  | .mapColumn column _ => some column
  | .withColumn column _ => column
  | _ => none

/-- A value can be written back unless the row is too short for the column that it replaces. -/
theorem output_eq_error {a : Action} {v : Value} (h : a.output row v = .error e) :
    ∃ column, a.target? = some column ∧ row.length ≤ column ∧ e = FaultCause.column column row.length := by
  have hreplace (column : Nat)
      (h : (if column < row.length then .ok (some (row.set column v)) else fault (.column column row.length) :
        RowResult (Option Row)) = .error e) :
      row.length ≤ column ∧ e = FaultCause.column column row.length := by
    split at h
    · cases h
    · next hlen =>
      cases h
      exact ⟨Nat.le_of_not_lt hlen, rfl⟩
  cases a with
  | map f | filter f | select columns | unique => cases h
  | mapColumn column f => exact ⟨column, rfl, hreplace column h⟩
  | withColumn column f =>
    cases column with
    | none => cases h
    | some column => exact ⟨column, rfl, hreplace column h⟩

/-- A row fails in the handlers, or when its value is written back. -/
theorem settle_eq_error {state : RowState} (h : s.settle row state = .error e) :
    state = .failed e ∨ ∃ v, s.action.output row v = .error e := by
  cases state with
  | pending | fastFailed r | dropped => cases h
  | failed e' =>
    cases h
    exact Or.inl rfl
  | fastValue v | value v | resolved v => exact Or.inr ⟨v, h⟩

/-- A row that comes out of the handlers without a failure was resolved or ignored. -/
theorem taken_of_isHandled {state : RowState} {kept : Option Row} (h : state.isHandled = true)
    (hok : s.settle row state = .ok kept) :
    state.taken.resolved + state.taken.ignored = 1 := by
  cases state with
  | pending | fastValue v | fastFailed r | value v => cases h
  | failed e => cases hok
  | resolved v | dropped => rfl

theorem process_of_lambda (hf : s.action.lambda? = some f) :
    s.process compiled row = (s.settle row (s.finish f compiled row).1, (s.finish f compiled row).2) := by
  unfold Stage.process
  split
  · next g hg =>
    cases hf.symm.trans hg
    rfl
  · next hnone => cases hf.symm.trans hnone
  · next hnone _ => cases hf.symm.trans hnone

theorem ne_unique_of_lambda {a : Action} (hf : a.lambda? = some f) : a ≠ .unique := by
  rintro rfl
  cases hf

/-- When a row ends with a fault of a kind that its stage ignores, the fault is that of the missing column which the
value was to replace. -/
theorem process_ignored (hf : s.action.lambda? = some f) (hkind : kind.isFatal = false)
    (hignore : .ignore kind ∈ s.handlers) (compiled : Option FastPath.Compiled) (row : Row)
    (h : (s.process compiled row).1 = .error e) (he : e.kind = kind) :
    ∃ column, s.action.target? = some column ∧ row.length ≤ column ∧ e = FaultCause.column column row.length := by
  rw [process_of_lambda hf] at h
  rcases settle_eq_error h with hfailed | ⟨v, hout⟩
  · exact absurd he (finish_ignored hkind hignore hfailed)
  · exact output_eq_error hout

/-- The stage that replaces the second column by the first one and ignores missing columns. -/
def copyColumn : Stage := ⟨.withColumn (some 1) ⟨1, ["x"], .param 0, none⟩, [.ignore .index]⟩

/-- The second column is missing, and the stage fails. -/
theorem process_of_missing_column :
    ∃ e, .ignore .index ∈ copyColumn.handlers ∧ FaultKind.index.isFatal = false ∧
      (copyColumn.process none [.int 1]).1 = .error e ∧ e.kind = .index :=
  ⟨_, List.mem_singleton.2 rfl, rfl, rfl, rfl⟩

theorem process_ignored_copyColumn :
    ∃ e, (copyColumn.process none [.int 1]).1 = .error e ∧ e.kind = .index ∧
      ∃ column, copyColumn.action.target? = some column ∧ 1 ≤ column ∧ e = FaultCause.column column 1 :=
  ⟨FaultCause.column 1 1, rfl, rfl,
    process_ignored (s := copyColumn) rfl rfl (List.mem_singleton.2 rfl) none [.int 1] rfl rfl⟩

end
end Millrace
