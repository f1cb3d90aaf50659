import Mathlib.Data.List.Nodup
import Millrace.Proofs.Pipeline.Handlers

/-!
# The course of a fault

The handlers of a stage are tried one after the other on a fault: always the first that takes the kind of the current
fault and was not used before (`Stage.handlerFor?`).  A resolver that fails makes its own fault the current one.
`Course` tells how this goes, with the positions of the handlers that were tried and the faults that were current; no
handler is tried twice (`Course.fresh`).  What a stage makes of a fault is what comes at the end of its course, and
every kind of fault that was met is counted once (`course_of_handle`).

A handler that is added at the end of the list comes into play only where a course came to its end because no handler
was left (`process_withHandler`).

## Main statements

* `handlerFor?_of_pick?`: the handler that is picked is the first for its kind that was not used.
* `course_of_handle`: the handlers of a stage, and what is counted for them.
* `process_withHandler`: one more handler.
-/

namespace Millrace

/-! ### Handlers and their positions -/

/-- The handlers that were not used yet, with their positions. -/
def Stage.unused (s : Stage) (used : List Nat) : List (Handler × Nat) :=
  s.handlers.zipIdx.filter fun x => !used.contains x.2

/-- Picking a handler from a list whose items have different positions. -/
theorem Handler.pick?_map_fst {xs : List (Handler × Nat)} (kind : FaultKind) (hnodup : (xs.map (·.2)).Nodup) :
    Handler.pick? kind (xs.map (·.1)) =
      (xs.find? (·.1.kind == kind)).map fun x => (x.1, (xs.filter (·.2 != x.2)).map (·.1)) := by
  induction xs with
  | nil => rfl
  | cons x xs ih =>
    obtain ⟨hx, hxs⟩ := List.nodup_cons.1 hnodup
    rw [List.map_cons, Handler.pick?]
    by_cases hkind : x.1.kind = kind
    · have hothers : xs.filter (·.2 != x.2) = xs := by
        refine List.filter_eq_self.2 fun y hy => ?_
        rw [bne_iff_ne]
        exact fun hsame => hx (List.mem_map.2 ⟨y, hy, hsame⟩)
      rw [if_pos hkind, List.find?_cons_of_pos (by simpa using hkind), Option.map_some,
        List.filter_cons_of_neg (by simp), hothers]
    · rw [if_neg hkind, List.find?_cons_of_neg (by simpa using hkind), ih hxs, Option.map_map]
      refine Option.map_congr fun y hy => ?_
      have hne : x.2 ≠ y.2 := fun hsame => hx (List.mem_map.2 ⟨y, List.mem_of_find?_eq_some hy, hsame.symm⟩)
      rw [List.filter_cons_of_pos (by simpa using hne)]
      rfl

section
variable {s : Stage} {used : List Nat} {kind : FaultKind} {i : Nat} {h : Handler}

theorem mem_unused : (h, i) ∈ s.unused used ↔ s.handlers[i]? = some h ∧ i ∉ used := by
  rw [Stage.unused, List.mem_filter, List.mem_zipIdx_iff_getElem?]
  simp

theorem nodup_unused (s : Stage) (used : List Nat) : ((s.unused used).map (·.2)).Nodup := by
  have hall : (s.handlers.zipIdx.map (·.2)).Nodup := by
    rw [List.zipIdx_map_snd]
    exact List.nodup_range'
  exact hall.sublist (List.filter_sublist.map _)

theorem unused_nil (s : Stage) : (s.unused []).map (·.1) = s.handlers := by
  have hall : s.unused [] = s.handlers.zipIdx := List.filter_eq_self.2 fun x _ => rfl
  rw [hall, List.zipIdx_map_fst]

theorem unused_cons (s : Stage) (i : Nat) (used : List Nat) :
    s.unused (i :: used) = (s.unused used).filter (·.2 != i) := by
  rw [Stage.unused, Stage.unused, List.filter_filter]
  refine List.filter_congr fun x _ => ?_
  by_cases hx : x.2 = i <;> simp [hx]

theorem handlerFor?_eq_find? :
    s.handlerFor? kind used = ((s.unused used).find? (·.1.kind == kind)).map (·.2) := by
  rw [Stage.unused, List.find?_filter, Stage.handlerFor?]
  congr 2
  funext x
  rw [Bool.eq_iff_iff]
  simp [and_comm]

/-- The handler that is looked up takes this kind of fault and was not used. -/
theorem of_handlerFor?_eq_some (hfound : s.handlerFor? kind used = some i) :
    i ∉ used ∧ ∃ h, s.handlers[i]? = some h ∧ h.kind = kind := by
  rw [handlerFor?_eq_find?] at hfound
  obtain ⟨⟨h, j⟩, hfind, rfl⟩ := Option.map_eq_some_iff.1 hfound
  obtain ⟨hh, hunused⟩ := mem_unused.1 (List.mem_of_find?_eq_some hfind)
  exact ⟨hunused, h, hh, by simpa using List.find?_some hfind⟩

/-- No handler is found exactly if all handlers for this kind of fault were used. -/
theorem handlerFor?_eq_none :
    s.handlerFor? kind used = none ↔ ∀ i h, s.handlers[i]? = some h → h.kind = kind → i ∈ used := by
  rw [handlerFor?_eq_find?, Option.map_eq_none_iff, List.find?_eq_none]
  constructor
  · intro hnone i h hh hkind
    by_contra hi
    exact hnone (h, i) (mem_unused.2 ⟨hh, hi⟩) (by simpa using hkind)
  · rintro hall ⟨h, i⟩ hmem
    obtain ⟨hh, hi⟩ := mem_unused.1 hmem
    simpa using fun hkind => hi (hall i h hh hkind)

/-- When no handler can be picked from those that are left, none is found. -/
theorem handlerFor?_of_pick?_none (hnone : Handler.pick? kind ((s.unused used).map (·.1)) = none) :
    s.handlerFor? kind used = none := by
  rw [Handler.pick?_map_fst kind (nodup_unused s used), Option.map_eq_none_iff] at hnone
  rw [handlerFor?_eq_find?, hnone]
  rfl

/-- The handler that is picked from those that are left is the one that is found, and it is used up then. -/
theorem handlerFor?_of_pick? {others : List Handler}
    (hpick : Handler.pick? kind ((s.unused used).map (·.1)) = some (h, others)) :
    ∃ i, s.handlerFor? kind used = some i ∧ s.handlers[i]? = some h ∧ h.kind = kind ∧
      others = (s.unused (i :: used)).map (·.1) := by
  rw [Handler.pick?_map_fst kind (nodup_unused s used)] at hpick
  obtain ⟨⟨g, i⟩, hfind, hsame⟩ := Option.map_eq_some_iff.1 hpick
  cases hsame
  obtain ⟨hh, -⟩ := mem_unused.1 (List.mem_of_find?_eq_some hfind)
  refine ⟨i, ?_, hh, by simpa using List.find?_some hfind, ?_⟩
  · rw [handlerFor?_eq_find?, hfind]
    rfl
  · rw [unused_cons]

end

/-! ### Courses -/

/-- How the handlers of a stage deal with the fault `e` of what the lambda sees of a row, when the handlers in the
positions `used` are used up: the positions of the handlers that are tried, the faults that are current one after the
other, and the state that the row comes to. -/
inductive Course (s : Stage) (input : Row) : List Nat → Fault → List Nat → List Fault → RowState → Prop
  /-- No handler is left for the fault. -/
  | unhandled {used : List Nat} {e : Fault} : s.handlerFor? e.kind used = none →
      Course s input used e [] [e] (.failed e)
  | ignored {used : List Nat} {e : Fault} {i : Nat} : s.handlerFor? e.kind used = some i →
      s.handlers[i]? = some (.ignore e.kind) → Course s input used e [i] [e] .dropped
  | resolved {used : List Nat} {e : Fault} {i : Nat} {f : Lambda} {v : Value} : s.handlerFor? e.kind used = some i →
      s.handlers[i]? = some (.resolve e.kind f) → f.eval input = .ok v → Course s input used e [i] [e] (.resolved v)
  /-- The resolver fails with a fatal fault. -/
  | fatal {used : List Nat} {e next : Fault} {i : Nat} {f : Lambda} : s.handlerFor? e.kind used = some i →
      s.handlers[i]? = some (.resolve e.kind f) → f.eval input = .error next → next.isFatal = true →
        Course s input used e [i] [e] (.failed (next.within "resolver"))
  /-- The resolver fails, and its fault goes to the handlers that are left. -/
  | handedOn {used tried : List Nat} {e next : Fault} {met : List Fault} {i : Nat} {f : Lambda} {state : RowState} :
      s.handlerFor? e.kind used = some i → s.handlers[i]? = some (.resolve e.kind f) → f.eval input = .error next →
        next.isFatal = false → Course s input (i :: used) (next.within "resolver") tried met state →
          Course s input used e (i :: tried) (e :: met) state

section
variable {s : Stage} {input : Row} {used tried : List Nat} {e last : Fault} {met : List Fault} {state : RowState}

theorem lt_of_handlerFor? {kind : FaultKind} {i : Nat} (hfound : s.handlerFor? kind used = some i) :
    i < s.handlers.length := by
  obtain ⟨-, h, hh, -⟩ := of_handlerFor?_eq_some hfound
  exact (List.getElem?_eq_some_iff.1 hh).1

/-- No handler is tried that was used before, and none is tried twice. -/
theorem Course.fresh (hcourse : Course s input used e tried met state) :
    tried.Nodup ∧ ∀ i ∈ tried, i ∉ used ∧ i < s.handlers.length := by
  induction hcourse with
  | unhandled _ => exact ⟨List.nodup_nil, fun i hi => (nomatch hi)⟩
  | ignored hfound _ | resolved hfound _ _ | fatal hfound _ _ _ =>
    refine ⟨List.nodup_singleton _, fun i hi => ?_⟩
    rw [List.mem_singleton.1 hi]
    exact ⟨(of_handlerFor?_eq_some hfound).1, lt_of_handlerFor? hfound⟩
  | handedOn hfound _ _ _ _ ih =>
    obtain ⟨hnodup, hfresh⟩ := ih
    refine ⟨List.nodup_cons.2 ⟨fun hi => (hfresh _ hi).1 (List.mem_cons_self ..), hnodup⟩, ?_⟩
    refine List.forall_mem_cons.2 ⟨⟨(of_handlerFor?_eq_some hfound).1, lt_of_handlerFor? hfound⟩, fun j hj => ?_⟩
    obtain ⟨hj, hlt⟩ := hfresh j hj
    exact ⟨fun hmem => hj (List.mem_cons_of_mem _ hmem), hlt⟩

/-- A course meets the fault that it starts with. -/
theorem Course.mem_met (hcourse : Course s input used e tried met state) : e ∈ met := by
  cases hcourse with
  | unhandled _ | ignored _ _ | resolved _ _ _ | fatal _ _ _ _ | handedOn _ _ _ _ _ => exact List.mem_cons_self ..

/-- Only the fault that ends a course can be fatal. -/
theorem Course.nonfatal (hcourse : Course s input used e tried met state) (he : e.isFatal = false) :
    ∀ e' ∈ met, e'.isFatal = false := by
  induction hcourse with
  | unhandled _ | ignored _ _ | resolved _ _ _ | fatal _ _ _ _ => exact List.forall_mem_singleton.2 he
  | handedOn _ _ _ hnext _ ih => exact List.forall_mem_cons.2 ⟨he, ih hnext⟩

/-- When a course ends with a fault that is not fatal, all handlers of its kind were tried. -/
theorem Course.exhausted (hcourse : Course s input used e tried met (.failed last)) (hlast : last.isFatal = false) :
    ∀ i h, s.handlers[i]? = some h → h.kind = last.kind → i ∈ used ∨ i ∈ tried := by
  generalize hstate : RowState.failed last = state at hcourse
  induction hcourse with
  | unhandled hnone =>
    cases hstate
    exact fun i h hh hkind => Or.inl (handlerFor?_eq_none.1 hnone i h hh hkind)
  | ignored _ _ | resolved _ _ _ => cases hstate
  | fatal _ _ _ hfatal =>
    cases hstate
    cases hlast.symm.trans hfatal
  | handedOn _ _ _ _ _ ih =>
    intro j h hh hkind
    rcases ih hstate j h hh hkind with hj | hj
    · rcases List.mem_cons.1 hj with rfl | hj
      · exact Or.inr (List.mem_cons_self ..)
      · exact Or.inl hj
    · exact Or.inr (List.mem_cons_of_mem _ hj)

/-- What is counted with a kind that was not counted before, when the kinds that are counted after it are known. -/
theorem get_of_new {t : Tally} {kinds counted : List FaultKind} {k : FaultKind} (hk : k ∈ kinds) (hnew : k ∉ counted)
    (ht : ∀ kind, t.faults.get kind = if kind ∈ kinds ∧ kind ∉ k :: counted then 1 else 0) (kind : FaultKind) :
    (({ faults := .one k } : Tally) + t).faults.get kind = if kind ∈ kinds ∧ kind ∉ counted then 1 else 0 := by
  have hone : (({ faults := .one k } : Tally) + t).faults.get kind =
      (if k = kind then 1 else 0) + t.faults.get kind := by
    rw [← FaultCounts.get_one, ← FaultCounts.get_add]
    rfl
  rw [hone, ht]
  by_cases hkind : k = kind
  · subst hkind
    simp [hk, hnew]
  · simp [hkind, Ne.symm hkind]

/-- The handlers follow a course, and what is counted are the kinds that were met and not counted before. -/
theorem course_of_handleWith (input : Row) (counted : List FaultKind) (e : Fault) (handlers : List Handler)
    (hhandlers : handlers = (s.unused used).map (·.1)) (hcounted : e.kind ∈ counted) :
    ∃ tried met, Course s input used e tried met (handleWith input counted e handlers).1 ∧
      ∀ kind, (handleWith input counted e handlers).2.faults.get kind =
        if kind ∈ met.map Fault.kind ∧ kind ∉ counted then 1 else 0 := by
  have hlast (counted : List FaultKind) (e : Fault) (hcounted : e.kind ∈ counted) (kind : FaultKind) :
      (0 : FaultCounts).get kind = if kind ∈ [e].map Fault.kind ∧ kind ∉ counted then 1 else 0 := by
    rw [FaultCounts.get_zero, if_neg]
    rintro ⟨hkind, hnot⟩
    rw [List.map_singleton, List.mem_singleton] at hkind
    exact hnot (hkind ▸ hcounted)
  fun_induction handleWith input counted e handlers generalizing used with
  | case1 counted e handlers picked =>
    subst hhandlers
    exact ⟨[], [e], .unhandled (handlerFor?_of_pick?_none picked), hlast counted e hcounted⟩
  | case2 counted e handlers kind others picked =>
    subst hhandlers
    obtain ⟨i, hfound, hh, rfl, -⟩ := handlerFor?_of_pick? picked
    exact ⟨[i], [e], .ignored hfound hh, hlast counted e hcounted⟩
  | case3 counted e handlers kind g others picked v hv =>
    subst hhandlers
    obtain ⟨i, hfound, hh, rfl, -⟩ := handlerFor?_of_pick? picked
    exact ⟨[i], [e], .resolved hfound hh hv, hlast counted e hcounted⟩
  | case4 counted e handlers kind g others picked next hnext hfatal =>
    subst hhandlers
    obtain ⟨i, hfound, hh, rfl, -⟩ := handlerFor?_of_pick? picked
    exact ⟨[i], [e], .fatal hfound hh hnext hfatal, hlast counted e hcounted⟩
  | case5 counted e handlers kind g others picked next hnext hfatal state tally hrest ih =>
    subst hhandlers
    obtain ⟨i, hfound, hh, rfl, hothers⟩ := handlerFor?_of_pick? picked
    obtain ⟨tried, met, hcourse, hcounts⟩ := ih hothers (List.mem_cons_self ..)
    rw [hrest] at hcourse hcounts
    refine ⟨i :: tried, e :: met, .handedOn hfound hh hnext (by simpa using hfatal) hcourse, fun kind => ?_⟩
    -- the kind of `e` was counted before, so `e` adds no kind to those that are counted from here on
    have hcons : kind ∈ (e :: met).map Fault.kind ∧ kind ∉ counted ↔ kind ∈ met.map Fault.kind ∧ kind ∉ counted := by
      refine and_congr_left fun hnot => List.mem_cons.trans (or_iff_right ?_)
      rintro rfl
      exact hnot hcounted
    simp only [hcons]
    by_cases hbefore : next.kind ∈ counted
    · have hsame : kind ∉ next.kind :: counted ↔ kind ∉ counted := by
        rw [List.mem_cons, or_iff_right_of_imp]
        rintro rfl
        exact hbefore
      rw [if_pos (by simpa using hbefore), hcounts]
      simp only [hsame]
    · rw [if_neg (by simpa using hbefore)]
      exact get_of_new (List.mem_map.2 ⟨_, hcourse.mem_met, rfl⟩) hbefore hcounts kind

/-- What a stage makes of a fault that is not fatal comes at the end of a course, and every kind of fault that was met
on it is counted once. -/
theorem course_of_handle (s : Stage) (input : Row) (he : e.isFatal = false) :
    ∃ tried met, Course s input [] e tried met (s.handle input e).1 ∧
      ∀ kind, (s.handle input e).2.faults.get kind = if kind ∈ met.map Fault.kind then 1 else 0 := by
  obtain ⟨tried, met, hcourse, hcounts⟩ :=
    course_of_handleWith input [e.kind] e s.handlers (unused_nil s).symm (List.mem_singleton_self _)
  have hhandle : s.handle input e = ((handleWith input [e.kind] e s.handlers).1,
      { faults := .one e.kind } + (handleWith input [e.kind] e s.handlers).2) := by
    rw [Stage.handle, he]
    rfl
  rw [hhandle]
  refine ⟨tried, met, hcourse, fun kind => ?_⟩
  rw [get_of_new (List.mem_map_of_mem hcourse.mem_met) List.not_mem_nil hcounts]
  simp

end

/-! ### Which rows go to the handlers -/

/-- The row fails before any handler is tried: with this fault, which the handlers are given together with `input`. -/
inductive Action.Faults (a : Action) (f : Lambda) (row : Row) : Row → Fault → Prop
  | missing : a.input? row = none → a.Faults f row row (FaultCause.columnRead row.length)
  | evaluated {input : Row} {e : Fault} : a.input? row = some input → f.eval input = .error e → a.Faults f row input e

/-- What the handlers of a stage have to do with the last state of a row. -/
inductive HandlerCase (a : Action) (f : Lambda) (compiled : Option FastPath.Compiled) (row : Row) : Prop
  /-- The row comes to its value without them. -/
  | unasked (state : RowState) (path : Tally) : path.outcome = 0 →
      (∀ hs, Stage.finish ⟨a, hs⟩ f compiled row = (state, path)) → HandlerCase a f compiled row
  /-- They decide what becomes of a fault. -/
  | asked (input : Row) (e : Fault) (path : Tally) : a.Faults f row input e → path.outcome = 0 →
      (∀ hs, Stage.finish ⟨a, hs⟩ f compiled row =
        ((Stage.handle ⟨a, hs⟩ input e).1, path + (Stage.handle ⟨a, hs⟩ input e).2)) → HandlerCase a f compiled row

/-- The evaluator comes in after a path was counted. -/
theorem handlerCase_of_evaluate {a : Action} {f : Lambda} {compiled : Option FastPath.Compiled} {row input : Row}
    (path : Tally) (hinput : a.input? row = some input) (hpath : path.outcome = 0)
    (hfinish : ∀ hs, Stage.finish ⟨a, hs⟩ f compiled row =
      ((Stage.evaluate ⟨a, hs⟩ f input).1, path + (Stage.evaluate ⟨a, hs⟩ f input).2)) :
    HandlerCase a f compiled row := by
  cases heval : f.eval input with
  | ok v =>
    refine .unasked (.value v) path hpath fun hs => ?_
    rw [hfinish, Stage.evaluate, heval]
    exact Prod.ext rfl (add_zero path)
  | error e =>
    refine .asked input e path (.evaluated hinput heval) hpath fun hs => ?_
    rw [hfinish, Stage.evaluate, heval]

/-- The handlers of a stage make a difference only to a row that fails, and only by what they make of its fault. -/
theorem handlerCase (a : Action) (f : Lambda) (compiled : Option FastPath.Compiled) (row : Row) :
    HandlerCase a f compiled row := by
  cases hinput : a.input? row with
  | none =>
    refine .asked row _ 0 (.missing hinput) rfl fun hs => ?_
    rw [finish_of_missing hinput, zero_add]
  | some input =>
    cases compiled with
    | none =>
      refine handlerCase_of_evaluate { generalOnly := 1 } hinput rfl fun hs => ?_
      rw [finish_of_general hinput, add_zero]
    | some c =>
      cases hcall : c.call input with
      | ok v => exact .unasked (.fastValue v) ({ fastPath := 1 } + 0) rfl fun hs => finish_of_call hinput hcall
      | error r =>
        exact handlerCase_of_evaluate { fallback := 1 } hinput rfl fun hs => finish_of_refusal hinput hcall

/-! ### One more handler -/

/-- The stage with a further handler, which comes after the others. -/
def Stage.withHandler (s : Stage) (h : Handler) : Stage := { s with handlers := s.handlers ++ [h] }

section
variable {s : Stage} {f : Lambda} {row input : Row} {counted : List FaultKind} {e : Fault} {kind : FaultKind}
  {g h : Handler} {hs others : List Handler}

theorem Handler.pick?_append_of_some (hpick : Handler.pick? kind hs = some (g, others)) (more : List Handler) :
    Handler.pick? kind (hs ++ more) = some (g, others ++ more) := by
  induction hs generalizing g others with
  | nil => cases hpick
  | cons h hs ih =>
    rw [Handler.pick?] at hpick
    rw [List.cons_append, Handler.pick?]
    split at hpick
    · next hkind =>
      cases hpick
      rw [if_pos hkind]
    · next hkind =>
      obtain ⟨⟨_, left⟩, hfound, hsame⟩ := Option.map_eq_some_iff.1 hpick
      cases hsame
      rw [if_neg hkind, ih hfound]
      rfl

theorem Handler.pick?_append_of_none (hnone : Handler.pick? kind hs = none) (hkind : h.kind ≠ kind) :
    Handler.pick? kind (hs ++ [h]) = none := by
  induction hs with
  | nil => rw [List.nil_append, Handler.pick?, if_neg hkind, Handler.pick?, Option.map_none]
  | cons g hs ih =>
    rw [Handler.pick?] at hnone
    rw [List.cons_append, Handler.pick?]
    split at hnone
    · cases hnone
    · next hne => rw [if_neg hne, ih (Option.map_eq_none_iff.1 hnone), Option.map_none]

/-- A further handler changes nothing unless the handlers before it leave a fault of its kind. -/
theorem handleWith_append (input : Row) (counted : List FaultKind) (hs : List Handler) (h : Handler)
    (he : e.isFatal = false) :
    handleWith input counted e (hs ++ [h]) = handleWith input counted e hs ∨
      ∃ last, (handleWith input counted e hs).1 = .failed last ∧ last.isFatal = false ∧ h.kind = last.kind := by
  fun_induction handleWith input counted e hs with
  | case1 counted e hs picked =>
    by_cases hkind : h.kind = e.kind
    · exact Or.inr ⟨e, rfl, he, hkind⟩
    · exact Or.inl (handleWith_of_none (Handler.pick?_append_of_none picked hkind))
  | case2 counted e hs kind others picked =>
    exact Or.inl (handleWith_of_ignore (Handler.pick?_append_of_some picked [h]))
  | case3 counted e hs kind g others picked v hv =>
    left
    rw [handleWith_of_resolve (Handler.pick?_append_of_some picked [h]), hv]
  | case4 counted e hs kind g others picked next hnext hfatal =>
    left
    rw [handleWith_of_resolve (Handler.pick?_append_of_some picked [h]), hnext]
    exact if_pos hfatal
  | case5 counted e hs kind g others picked next hnext hfatal state tally hrest ih =>
    rw [hrest] at ih
    refine (ih (Bool.eq_false_iff.2 hfatal)).imp_left fun hsame => ?_
    rw [handleWith_of_resolve (Handler.pick?_append_of_some picked [h]), hnext]
    simp only [hfatal, Bool.false_eq_true, ↓reduceIte, hsame]

theorem handle_withHandler (s : Stage) (h : Handler) (input : Row) (e : Fault) :
    (s.withHandler h).handle input e = s.handle input e ∨
      e.isFatal = false ∧
        ∃ last, (s.handle input e).1 = .failed last ∧ last.isFatal = false ∧ h.kind = last.kind := by
  cases he : e.isFatal with
  | true =>
    left
    rw [Stage.handle, Stage.handle, if_pos he, if_pos he]
  | false =>
    rw [Stage.handle, Stage.handle, if_neg (by simp [he]), if_neg (by simp [he])]
    refine (handleWith_append input [e.kind] s.handlers h he).imp (fun hsame => ?_) fun hlast => ⟨rfl, hlast⟩
    rw [Stage.withHandler, hsame]

theorem settle_withHandler (s : Stage) (h : Handler) (row : Row) (state : RowState) :
    (s.withHandler h).settle row state = s.settle row state := by
  cases state <;> rfl

/-- A further handler changes nothing about a row unless the others leave a fault of its kind, with which the row
fails. -/
theorem process_withHandler_eq (hf : s.action.lambda? = some f) (h : Handler) (compiled : Option FastPath.Compiled)
    (row : Row) :
    (s.withHandler h).process compiled row = s.process compiled row ∨
      ∃ input e last, s.action.Faults f row input e ∧ e.isFatal = false ∧ (s.handle input e).1 = .failed last ∧
        last.isFatal = false ∧ h.kind = last.kind ∧ (s.process compiled row).1 = .error last := by
  have hf' : (s.withHandler h).action.lambda? = some f := hf
  rw [process_of_lambda hf, process_of_lambda hf', settle_withHandler]
  cases handlerCase s.action f compiled row with
  | unasked state path _ hfinish =>
    left
    rw [show s.finish f compiled row = (state, path) from hfinish s.handlers,
      show (s.withHandler h).finish f compiled row = (state, path) from hfinish _]
  | asked input e path hfaults _ hfinish =>
    have hold : s.finish f compiled row = ((s.handle input e).1, path + (s.handle input e).2) := hfinish s.handlers
    have hnew : (s.withHandler h).finish f compiled row =
        (((s.withHandler h).handle input e).1, path + ((s.withHandler h).handle input e).2) := hfinish _
    rcases handle_withHandler s h input e with hsame | ⟨he, last, hfailed, hlast, hkind⟩
    · left
      rw [hold, hnew, hsame]
    · refine Or.inr ⟨input, e, last, hfaults, he, hfailed, hlast, hkind, ?_⟩
      rw [hold, hfailed]
      rfl

/-- A further handler at the end of the list is conservative: a row that does not fail keeps what comes out and what is
counted for it.  If a row is worked on in another way, then it failed before, with a fault that is not fatal and for
which no handler was left. -/
theorem process_withHandler (hf : s.action.lambda? = some f) (h : Handler) (compiled : Option FastPath.Compiled)
    (row : Row) :
    (∀ kept, (s.process compiled row).1 = .ok kept →
      (s.withHandler h).process compiled row = s.process compiled row) ∧
    ((s.withHandler h).process compiled row ≠ s.process compiled row →
      ∃ input e tried met last, s.action.Faults f row input e ∧ Course s input [] e tried met (.failed last) ∧
        (s.process compiled row).1 = .error last ∧ last.isFatal = false ∧ h.kind = last.kind ∧
          ∀ i g, s.handlers[i]? = some g → g.kind = last.kind → i ∈ tried) := by
  rcases process_withHandler_eq hf h compiled row with hsame |
    ⟨input, e, last, hfaults, he, hfailed, hlast, hkind, herror⟩
  · exact ⟨fun _ _ => hsame, fun hne => absurd hsame hne⟩
  · refine ⟨fun kept hok => (nomatch hok.symm.trans herror), fun _ => ?_⟩
    obtain ⟨tried, met, hcourse, -⟩ := course_of_handle s input he
    rw [hfailed] at hcourse
    refine ⟨input, e, tried, met, last, hfaults, hcourse, herror, hlast, hkind, fun i g hg hgkind => ?_⟩
    exact (hcourse.exhausted hlast i g hg hgkind).resolve_left List.not_mem_nil

/-- `lambda x: 1 / x` -/
def oneOver : Lambda := ⟨["x"], .binary .div (.const (.int 1)) (.param 0), none⟩

/-- The stage of `oneOver`, where a division by zero is resolved by `lambda x: (x,)[1]`, which fails in its turn. -/
def retryOutside : Stage :=
  ⟨.map ⟨1, oneOver⟩, [.resolve .zeroDivision ⟨["x"], .index (.tuple [.param 0]) (.const (.int 1)), none⟩]⟩

/-- The resolver leaves its own fault behind, which the handlers `others` are given. -/
theorem handle_retryOutside (others : List Handler) :
    Stage.handle ⟨retryOutside.action, retryOutside.handlers ++ others⟩ [.int 0] FaultCause.trueDivision =
      ((handleWith [.int 0] [.index, .zeroDivision] ⟨.tupleIndex, ["resolver"]⟩ others).1,
        { faults := .one .zeroDivision } + ({ faults := .one .index } +
          (handleWith [.int 0] [.index, .zeroDivision] ⟨.tupleIndex, ["resolver"]⟩ others).2)) := by
  have hpick : Handler.pick? (Fault.kind FaultCause.trueDivision) (retryOutside.handlers ++ others) =
      some (.resolve .zeroDivision ⟨["x"], .index (.tuple [.param 0]) (.const (.int 1)), none⟩, others) := rfl
  rw [Stage.handle, if_neg (by decide)]
  dsimp only
  rw [handleWith_of_resolve hpick]
  rfl

theorem process_retryOutside :
    retryOutside.process none [.int 0] = (.error ⟨.tupleIndex, ["resolver"]⟩,
      { generalOnly := 1, faults := .one .zeroDivision + .one .index }) := by
  have hhandle := handle_retryOutside []
  rw [handleWith_of_none rfl] at hhandle
  rw [process_of_lambda rfl, finish_of_general rfl]
  exact congrArg (fun r => (retryOutside.settle [.int 0] r.1, { generalOnly := 1 } + r.2 + 0)) hhandle

theorem process_retryOutside_ignore :
    (retryOutside.withHandler (.ignore .index)).process none [.int 0] = (.ok none,
      { generalOnly := 1, ignored := 1, faults := .one .zeroDivision + .one .index }) := by
  have hhandle := handle_retryOutside [.ignore .index]
  rw [handleWith_of_ignore rfl] at hhandle
  rw [process_of_lambda rfl, finish_of_general rfl]
  exact congrArg (fun r => (retryOutside.settle [.int 0] r.1, { generalOnly := 1 } + r.2 + 0)) hhandle

/-- The fault of the resolver is ignored by a further handler, and yet another one makes no difference. -/
theorem process_withHandler_retryOutside :
    let s := retryOutside
    let t := s.withHandler (.ignore .index)
    s.action.lambda? = some oneOver ∧ t.process none [.int 0] ≠ s.process none [.int 0] ∧
      (∃ input e tried met last, s.action.Faults oneOver [.int 0] input e ∧
        Course s input [] e tried met (.failed last) ∧ (s.process none [.int 0]).1 = .error last ∧
          last.isFatal = false ∧ FaultKind.index = last.kind) ∧
      t.action.lambda? = some oneOver ∧ (t.process none [.int 0]).1 = .ok none ∧
        (t.withHandler (.ignore .domain)).process none [.int 0] = t.process none [.int 0] := by
  intro s t
  have hne : t.process none [.int 0] ≠ s.process none [.int 0] := by
    rw [process_retryOutside, process_retryOutside_ignore]
    rintro ⟨⟩
  have hok : (t.process none [.int 0]).1 = .ok none := by
    rw [process_retryOutside_ignore]
  obtain ⟨input, e, tried, met, last, hfaults, hcourse, herror, hlast, hkind, -⟩ :=
    (process_withHandler (s := s) rfl (.ignore .index) none [.int 0]).2 hne
  exact ⟨rfl, hne, ⟨input, e, tried, met, last, hfaults, hcourse, herror, hlast, hkind⟩, rfl, hok,
    (process_withHandler (s := t) rfl (.ignore .domain) none [.int 0]).1 none hok⟩

end
end Millrace
