import Mathlib.Algebra.BigOperators.Group.List.Basic
import Millrace.Proofs.Pipeline.Interleaving
import Millrace.Proofs.Pipeline.Slots
import Millrace.Proofs.Results

/-!
# The outcome of a stage

When all batches of a stage have ended, their results are put together.  Of the failures the first is reported, in
whatever order the batches were joined (`foldl_absorb_failure`), and if there is none, the rows are those in the slots
and the counts those of all batches (`assemble_of_done`).  As the batches are consecutive pieces of the rows
(`Contiguous`), the outcome is that of the rows one after the other (`assemble_of_ended_ok`, `assemble_of_ended_error`).
-/

namespace Millrace

/-! ### Joining results -/

/-- What a result adds to the counts. -/
def BatchResult.counted : BatchResult → Tally
  | done _ tally => tally
  | failed _ _ | abandoned => 0

theorem foldl_absorb_tally (joined : List (Slot × BatchResult)) (p : Progress) :
    (joined.foldl Progress.absorb p).tally = p.tally + (joined.map fun x => x.2.counted).sum := by
  induction joined generalizing p with
  | nil => exact (add_zero _).symm
  | cons x joined ih =>
    obtain ⟨slot, r⟩ := x
    rw [List.foldl_cons, ih, List.map_cons, List.sum_cons, ← add_assoc]
    congr 1
    cases r with
    | done output tally => rfl
    | abandoned => exact (add_zero _).symm
    | failed q e =>
      simp only [Progress.absorb]
      split <;> exact (add_zero _).symm

/-- A failure that is known of, before or after some results are taken in. -/
def Known (p : Progress) (joined : List (Slot × BatchResult)) (q : Nat) (e : Fault) : Prop :=
  p.failure = some (q, e) ∨ ∃ slot, (slot, .failed q e) ∈ joined

section
variable {p : Progress} {x : Slot × BatchResult} {joined : List (Slot × BatchResult)} {q : Nat} {e : Fault}

theorem known_of_absorb (h : Known (p.absorb x) joined q e) : Known p (x :: joined) q e := by
  rcases h with h | ⟨slot, h⟩
  · obtain ⟨slot, r⟩ := x
    cases r with
    | done output tally => exact Or.inl h
    | abandoned => exact Or.inl h
    | failed q' e' =>
      simp only [Progress.absorb] at h
      split at h
      · cases h
        exact Or.inr ⟨slot, List.mem_cons_self ..⟩
      · exact Or.inl h
  · exact Or.inr ⟨slot, List.mem_cons_of_mem _ h⟩

/-- A failure is only forgotten for an earlier one. -/
theorem known_absorb (h : Known p (x :: joined) q e) : ∃ q' e', q' ≤ q ∧ Known (p.absorb x) joined q' e' := by
  rcases h with h | ⟨slot, h⟩
  · obtain ⟨slot, r⟩ := x
    cases r with
    | done output tally => exact ⟨q, e, Nat.le_refl q, Or.inl h⟩
    | abandoned => exact ⟨q, e, Nat.le_refl q, Or.inl h⟩
    | failed q' e' =>
      by_cases hfirst : q' < q
      · refine ⟨q', e', by omega, Or.inl ?_⟩
        simp only [Progress.absorb, h, Option.all_some, hfirst, decide_true, ↓reduceIte]
      · refine ⟨q, e, Nat.le_refl q, Or.inl ?_⟩
        simp only [Progress.absorb, h, Option.all_some, hfirst, decide_false, Bool.false_eq_true, ↓reduceIte]
  · rw [List.mem_cons] at h
    rcases h with rfl | h
    · cases hp : p.failure with
      | none =>
        refine ⟨q, e, Nat.le_refl q, Or.inl ?_⟩
        simp only [Progress.absorb, hp, Option.all_none, ↓reduceIte]
      | some known =>
        by_cases hfirst : q < known.1
        · refine ⟨q, e, Nat.le_refl q, Or.inl ?_⟩
          simp only [Progress.absorb, hp, Option.all_some, hfirst, decide_true, ↓reduceIte]
        · refine ⟨known.1, known.2, by omega, Or.inl ?_⟩
          simp only [Progress.absorb, hp, Option.all_some, hfirst, decide_false, Bool.false_eq_true, ↓reduceIte]
    · exact ⟨q, e, Nat.le_refl q, Or.inr ⟨slot, h⟩⟩

theorem foldl_absorb_none (h : (joined.foldl Progress.absorb p).failure = none) (q : Nat) (e : Fault) :
    ¬ Known p joined q e := by
  induction joined generalizing p q e with
  | nil =>
    rintro (hq | ⟨slot, hq⟩)
    · cases h.symm.trans hq
    · cases hq
  | cons x joined ih =>
    intro hknown
    obtain ⟨q', e', -, hlater⟩ := known_absorb hknown
    exact ih h q' e' hlater

/-- Of the failures that are known of, the one that is kept is the first. -/
theorem foldl_absorb_failure (h : (joined.foldl Progress.absorb p).failure = some (q, e)) :
    Known p joined q e ∧ ∀ q' e', Known p joined q' e' → q ≤ q' := by
  induction joined generalizing p with
  | nil =>
    refine ⟨Or.inl h, ?_⟩
    rintro q' e' (hq | ⟨slot, hq⟩)
    · cases h.symm.trans hq
      exact Nat.le_refl q
    · cases hq
  | cons x joined ih =>
    obtain ⟨hknown, hfirst⟩ := ih h
    refine ⟨known_of_absorb hknown, fun q' e' hq => ?_⟩
    obtain ⟨q'', e'', hle, hlater⟩ := known_absorb hq
    have := hfirst q'' e'' hlater
    omega

end

/-! ### Results without failures -/

/-- Partitions without rows add nothing. -/
theorem flatten_filter_nonempty {α : Type} (xss : List (List α)) :
    (xss.filter (!·.isEmpty)).flatten = xss.flatten := by
  induction xss with
  | nil => rfl
  | cons xs xss ih =>
    cases xs with
    | nil => exact ih
    | cons x xs =>
      rw [List.filter_cons_of_pos rfl, List.flatten_cons, List.flatten_cons, ih]

/-- When all batches are done, the rows are those of the batches in the order of the plan, and the tally is the sum of
theirs. -/
theorem assemble_of_done {joined : List (Slot × BatchResult)} {size : Nat} {shares : List Share}
    (o : Option FastPath.Compiled → List Row → List Row) (t : Option FastPath.Compiled × Batch → Tally) (s : Stage)
    (index : Nat) (hjoin : joined.Perm ((plan size 0 0 shares).map (doneWith o t))) :
    s.assemble index false (.empty size shares) joined =
      .ok ((shares.map fun x => (x.2.batches size).flatMap (o x.1)).filter (!·.isEmpty),
        ((plan size 0 0 shares).map t).sum) := by
  have hnone : (joined.foldl Progress.absorb { slots := .empty size shares }).failure = none := by
    cases hf : (joined.foldl Progress.absorb { slots := .empty size shares }).failure with
    | none => rfl
    | some failure =>
      obtain ⟨hknown, -⟩ := foldl_absorb_failure hf
      rcases hknown with hq | ⟨slot, hq⟩
      · cases hq
      · obtain ⟨x, -, hx⟩ := List.mem_map.1 (hjoin.mem_iff.1 hq)
        cases hx
  have htally : (joined.foldl Progress.absorb { slots := .empty size shares }).tally =
      ((plan size 0 0 shares).map t).sum := by
    rw [foldl_absorb_tally, (hjoin.map _).sum_eq, List.map_map]
    exact zero_add _
  have hslots : (joined.foldl Progress.absorb { slots := .empty size shares }).slots.collect? =
      some (shares.map fun x => (x.2.batches size).flatMap (o x.1)) := by
    have hnodup : (((plan size 0 0 shares).map (doneWith o t)).map (·.1)).Nodup := by
      rw [List.map_map]
      exact nodup_plan size 0 0 shares
    have hfilled : shares.map (fun x => (x.2.batches size).map fun rows => some (o x.1 rows)) =
        (shares.map fun x => (x.2.batches size).map (o x.1)).map fun xs => xs.map some := by
      simp only [List.map_map, Function.comp_def]
    have hplan := fill_plan o t [] size 0 shares
    rw [List.nil_append, List.nil_append] at hplan
    rw [foldl_absorb_slots, Slots.foldl_absorb_perm hjoin hnodup]
    refine (congrArg Slots.collect? hplan).trans ?_
    rw [hfilled, collect?_of_filled, List.map_map]
    rfl
  simp only [Stage.assemble, hnone, htally, hslots, Bool.false_eq_true, ↓reduceIte]

/-! ### Results of tasks -/

section
variable {w : World} {results : List (Slot × BatchResult)} {t : Task}

theorem World.Ended.mem_of_task (hend : w.Ended results) (ht : t ∈ w.tasks) :
    ∃ r, (t.given.slot, r) ∈ results ∧ t.state = .inr r := by
  have hmem : (t.given.slot, t.state) ∈ results.map fun x => (x.1, .inr x.2) := hend ▸ List.mem_map_of_mem ht
  obtain ⟨⟨slot, r⟩, hr, heq⟩ := List.mem_map.1 hmem
  obtain ⟨rfl, hstate⟩ := Prod.mk.inj heq
  exact ⟨r, hr, hstate.symm⟩

theorem World.Ended.task_of_mem {slot : Slot} {r : BatchResult} (hend : w.Ended results) (hr : (slot, r) ∈ results) :
    ∃ t ∈ w.tasks, t.state = .inr r := by
  have hmem : (slot, .inr r) ∈ w.tasks.map fun t => (t.given.slot, t.state) := by
    rw [hend]
    exact List.mem_map_of_mem hr
  obtain ⟨t, ht, heq⟩ := List.mem_map.1 hmem
  exact ⟨t, ht, (Prod.mk.inj heq).2⟩

end

/-- Cutting a partition into batches loses no row, unless batches hold none. -/
theorem batches_flatten {size : Nat} (h : size ≠ 0) (rows : Partition) : (rows.batches size).flatten = rows := by
  rw [Partition.batches, if_neg h, flatten_cut]

/-! ### Consecutive batches -/

/-- The tasks hold consecutive rows, the first of which has the given position. -/
def Contiguous : Nat → List Task → Prop
  | _, [] => True
  | position, t :: rest => t.given.position = position ∧ Contiguous (position + t.rows.length) rest

section
variable {s : Stage} {index position k j : Nat} {tasks more : List Task} {t : Task} {x : Trial} {w : World}
  {e : Fault}

theorem contiguous_append (h : Contiguous position tasks)
    (h' : Contiguous (position + (tasks.flatMap Task.rows).length) more) : Contiguous position (tasks ++ more) := by
  induction tasks generalizing position with
  | nil => exact h'
  | cons t tasks ih =>
    refine ⟨h.1, ih h.2 ?_⟩
    rw [List.flatMap_cons, List.length_append, ← Nat.add_assoc] at h'
    exact h'

/-- The task with a row in a given place. -/
theorem exists_task (h : Contiguous position tasks) (hx : (tasks.flatMap Task.rows)[k]? = some x) :
    ∃ t ∈ tasks, ∃ j, t.given.position + j = position + k ∧ t.rows[j]? = some x := by
  induction tasks generalizing position k with
  | nil => cases hx
  | cons t tasks ih =>
    rw [List.flatMap_cons, List.getElem?_append] at hx
    split at hx
    · refine ⟨t, List.mem_cons_self .., k, ?_, hx⟩
      rw [h.1]
    · next hlen =>
      obtain ⟨u, hu, j, hj, hux⟩ := ih h.2 hx
      exact ⟨u, List.mem_cons_of_mem t hu, j, by omega, hux⟩

/-- The place of a row of a task. -/
theorem exists_place (h : Contiguous position tasks) (ht : t ∈ tasks) (hx : t.rows[j]? = some x) :
    ∃ k, t.given.position + j = position + k ∧ (tasks.flatMap Task.rows)[k]? = some x := by
  induction tasks generalizing position with
  | nil => cases ht
  | cons u tasks ih =>
    rw [List.flatMap_cons]
    rw [List.mem_cons] at ht
    rcases ht with rfl | ht
    · obtain ⟨hlt, -⟩ := List.getElem?_eq_some_iff.1 hx
      refine ⟨j, by rw [h.1], ?_⟩
      rw [List.getElem?_append_left hlt]
      exact hx
    · obtain ⟨k, hk, hkx⟩ := ih h.2 ht
      refine ⟨u.rows.length + k, by omega, ?_⟩
      rw [List.getElem?_append_right (by omega), Nat.add_sub_cancel_left]
      exact hkx

/-- Where a batch failed, a row fails. -/
theorem fault_of_failed {p : Nat} (hinv : Invariant s w) (hcont : Contiguous 0 w.tasks) (ht : t ∈ w.tasks)
    (hfailed : t.state = .inr (.failed p e)) :
    ∃ x, (w.tasks.flatMap Task.rows)[p]? = some x ∧ s.faultOf? x = some e := by
  cases hinv.sound t ht with
  | running hstate _ _ _ | done hstate _ | cancelled hstate _ | late hstate _ _ => cases hfailed.symm.trans hstate
  | failed hstate hsweep =>
    cases hfailed.symm.trans hstate
    obtain ⟨j, x, rfl, hx, hfault, -⟩ := Stage.sweep_eq_error_iff.1 hsweep
    obtain ⟨k, hk, hkx⟩ := exists_place hcont ht hx
    rw [hk, Nat.zero_add]
    exact ⟨x, hkx, hfault⟩

/-- Where the signals know of a failure, a row fails. -/
theorem fault_of_recorded {p : Nat} (hinv : Invariant s w) (hcont : Contiguous 0 w.tasks)
    (hp : w.signals.firstFailure = some p) :
    ∃ x e, (w.tasks.flatMap Task.rows)[p]? = some x ∧ s.faultOf? x = some e := by
  obtain ⟨t, ht, e, hfailed⟩ := hinv.recorded p hp
  obtain ⟨x, hx, hfault⟩ := fault_of_failed hinv hcont ht hfailed
  exact ⟨x, e, hx, hfault⟩

/-! ### The outcome -/

/-- The result of a batch whose rows do not fail, as long as nothing makes it give up. -/
theorem done_of_sound (hinv : Invariant s w) (hcont : Contiguous 0 w.tasks) (hgo : w.signals.cancelled = false)
    (hnone : ∀ x ∈ w.tasks.flatMap Task.rows, s.faultOf? x = none) (ht : t ∈ w.tasks) {r : BatchResult}
    (hr : t.state = .inr r) :
    r = .done (t.rows.flatMap s.outputOf) (t.rows.map s.countOf).sum := by
  have hsweep : t.sweep s = .ok (t.rows.flatMap s.outputOf, (t.rows.map s.countOf).sum) :=
    Stage.sweep_of_ok fun x hx => hnone x (List.mem_flatMap.2 ⟨t, ht, hx⟩)
  cases hinv.sound t ht with
  | running hstate _ _ _ => cases hr.symm.trans hstate
  | done hstate hs =>
    cases hr.symm.trans hstate
    cases hsweep.symm.trans hs
    rfl
  | failed hstate hs => cases hsweep.symm.trans hs
  | cancelled _ hc => cases hgo.symm.trans hc
  | late _ hq _ =>
    -- it would have given up for a failure, but no row fails
    obtain ⟨x, e, hx, hfault⟩ := fault_of_recorded hinv hcont hq
    have := hnone x (List.mem_of_getElem? hx)
    cases this.symm.trans hfault

/-- The result of the batch that holds the first row that fails. -/
theorem failed_of_sound (hinv : Invariant s w) (hcont : Contiguous 0 w.tasks) (hgo : w.signals.cancelled = false)
    (hx : (w.tasks.flatMap Task.rows)[k]? = some x) (hfault : s.faultOf? x = some e)
    (hfirst : ∀ j < k, ∀ y, (w.tasks.flatMap Task.rows)[j]? = some y → s.faultOf? y = none)
    {results : List (Slot × BatchResult)} (hend : w.Ended results) : ∃ slot, (slot, .failed k e) ∈ results := by
  obtain ⟨t, ht, j, hj, htx⟩ := exists_task hcont hx
  have hsweep : t.sweep s = .error (k, e) := by
    refine Stage.sweep_eq_error_iff.2 ⟨j, x, by omega, htx, hfault, fun i hi y hy => ?_⟩
    obtain ⟨i', hi', hiy⟩ := exists_place hcont ht hy
    exact hfirst i' (by omega) y hiy
  obtain ⟨r, hr, hrt⟩ := hend.mem_of_task ht
  cases hinv.sound t ht with
  | running hs _ _ _ => cases hrt.symm.trans hs
  | done _ hs => cases hsweep.symm.trans hs
  | failed hs hs' =>
    cases hsweep.symm.trans hs'
    cases hrt.symm.trans hs
    exact ⟨_, hr⟩
  | cancelled _ hc => cases hgo.symm.trans hc
  | @late q _ hq hlate =>
    -- it would have given up for an earlier failure, but this one is the first
    have hlt := hlate k e hsweep
    obtain ⟨y, e', hy, hyfault⟩ := fault_of_recorded hinv hcont hq
    have := hfirst q hlt y hy
    cases this.symm.trans hyfault

theorem sum_count_flatMap (s : Stage) (tasks : List Task) :
    ((tasks.flatMap Task.rows).map s.countOf).sum = (tasks.map fun t => (t.rows.map s.countOf).sum).sum := by
  induction tasks with
  | nil => rfl
  | cons t tasks ih => rw [List.flatMap_cons, List.map_append, List.sum_append, ih, List.map_cons, List.sum_cons]

/-- What comes out of the rows of a partition. -/
def Stage.outputs (s : Stage) (x : Share) : Partition := x.2.flatMap fun row => s.outputOf (x.1, row)

/-- When no row fails, the outcome is what all rows give, one partition after the other. -/
theorem assemble_of_ended_ok {size : Nat} {shares : List Share} {joined results : List (Slot × BatchResult)}
    (hsize : size ≠ 0) (hplan : w.tasks.map (fun t => (t.compiled, t.given)) = plan size 0 0 shares)
    (hinv : Invariant s w) (hcont : Contiguous 0 w.tasks) (hgo : w.signals.cancelled = false) (hend : w.Ended results)
    (hjoin : joined.Perm results) (hnone : ∀ x ∈ w.tasks.flatMap Task.rows, s.faultOf? x = none) :
    s.assemble index false (.empty size shares) joined =
      .ok ((shares.map s.outputs).filter (!·.isEmpty), ((w.tasks.flatMap Task.rows).map s.countOf).sum) := by
  let o (compiled : Option FastPath.Compiled) (rows : List Row) : List Row :=
    rows.flatMap fun row => s.outputOf (compiled, row)
  let counts (x : Option FastPath.Compiled × Batch) : Tally := ((x.2.pending.map (x.1, ·)).map s.countOf).sum
  have hresults : results = (plan size 0 0 shares).map (doneWith o counts) := by
    have hinj : Function.Injective fun x : Slot × BatchResult => (x.1, (Sum.inr x.2 : Batch ⊕ BatchResult)) := by
      rintro ⟨a, r⟩ ⟨b, r'⟩ heq
      cases heq
      rfl
    apply List.map_injective_iff.2 hinj
    rw [← hplan, ← hend, List.map_map, List.map_map]
    refine List.map_congr_left fun t ht => ?_
    obtain ⟨r, -, hr⟩ := hend.mem_of_task ht
    rw [hr, done_of_sound hinv hcont hgo hnone ht hr]
    simp only [Function.comp_def, doneWith, o, counts, Task.rows, List.flatMap_map]
  have houtputs (x : Share) : (x.2.batches size).flatMap (o x.1) = s.outputs x := by
    calc (x.2.batches size).flatMap (o x.1)
      _ = (x.2.batches size).flatten.flatMap fun row => s.outputOf (x.1, row) := by
        rw [← List.flatMap_id, List.flatMap_assoc]
        rfl
      _ = s.outputs x := by rw [batches_flatten hsize, Stage.outputs]
  rw [assemble_of_done o counts s index (hresults ▸ hjoin), sum_count_flatMap, ← hplan, List.map_map]
  simp only [houtputs]
  rfl

/-- When a row fails, the outcome is the failure of the first one. -/
theorem assemble_of_ended_error {slots : Slots} {joined results : List (Slot × BatchResult)} (hinv : Invariant s w)
    (hcont : Contiguous 0 w.tasks) (hgo : w.signals.cancelled = false) (hend : w.Ended results)
    (hjoin : joined.Perm results) (hx : (w.tasks.flatMap Task.rows)[k]? = some x)
    (hfault : s.faultOf? x = some e)
    (hfirst : ∀ j < k, ∀ y, (w.tasks.flatMap Task.rows)[j]? = some y → s.faultOf? y = none) :
    s.assemble index false slots joined = .error (.stage s.name index k e) := by
  obtain ⟨slot, hfailed⟩ := failed_of_sound hinv hcont hgo hx hfault hfirst hend
  have hmem := hjoin.mem_iff.2 hfailed
  have hfailure : (joined.foldl Progress.absorb { slots }).failure = some (k, e) := by
    cases hf : (joined.foldl Progress.absorb { slots }).failure with
    | none => exact absurd (Or.inr ⟨slot, hmem⟩) (foldl_absorb_none hf k e)
    | some failure =>
      obtain ⟨q, e'⟩ := failure
      obtain ⟨hknown, hleast⟩ := foldl_absorb_failure hf
      have hle := hleast k e (Or.inr ⟨slot, hmem⟩)
      -- the failure that is kept is one of a row, so it does not come before the first
      have hq : ∃ y, (w.tasks.flatMap Task.rows)[q]? = some y ∧ s.faultOf? y = some e' := by
        rcases hknown with hnothing | ⟨slot', hq⟩
        · cases hnothing
        · obtain ⟨t, ht, hts⟩ := hend.task_of_mem (hjoin.mem_iff.1 hq)
          exact fault_of_failed hinv hcont ht hts
      obtain ⟨y, hy, hyfault⟩ := hq
      rcases Nat.lt_or_eq_of_le hle with hlt | rfl
      · cases (hfirst q hlt y hy).symm.trans hyfault
      · cases hx.symm.trans hy
        cases hfault.symm.trans hyfault
        rfl
  simp only [Stage.assemble, hfailure]

end

/-! ### Plans -/

/-- The rows of a partition, each with the fast path of the partition. -/
def Share.trials (x : Share) : List Trial := x.2.map (x.1, ·)

section
variable {s : Stage} {settings : Settings}

theorem contiguous_ofPieces (compiled : Option FastPath.Compiled) (slot : Slot) (position : Nat)
    (pieces : List (List Row)) :
    Contiguous position ((Batch.ofPieces slot position pieces).map (Task.fresh compiled)) ∧
      ((Batch.ofPieces slot position pieces).map (Task.fresh compiled)).flatMap Task.rows =
        pieces.flatten.map (compiled, ·) := by
  induction pieces generalizing slot position with
  | nil => exact ⟨trivial, rfl⟩
  | cons rows pieces ih =>
    obtain ⟨hcont, hrows⟩ := ih ⟨slot.partition, slot.batch + 1⟩ (position + rows.length)
    have hfirst : (Task.fresh compiled ⟨slot, position, rows, [], {}⟩).rows = rows.map (compiled, ·) := rfl
    rw [Batch.ofPieces, List.map_cons]
    refine ⟨⟨rfl, ?_⟩, ?_⟩
    · rw [hfirst, List.length_map]
      exact hcont
    · rw [List.flatMap_cons, hfirst, hrows, List.flatten_cons, List.map_append]

/-- The batches of a plan are consecutive, and all their rows are those of the partitions. -/
theorem contiguous_plan {size : Nat} (h : size ≠ 0) (index position : Nat) (shares : List Share) :
    Contiguous position (World.start (plan size index position shares)).tasks ∧
      (World.start (plan size index position shares)).tasks.flatMap Task.rows = shares.flatMap Share.trials := by
  induction shares generalizing index position with
  | nil => exact ⟨trivial, rfl⟩
  | cons share shares ih =>
    obtain ⟨compiled, rows⟩ := share
    obtain ⟨hcont, hrows⟩ := contiguous_ofPieces compiled ⟨index, 0⟩ position (rows.batches size)
    obtain ⟨hrest, htrials⟩ := ih (index + 1) (position + (rows.batches size).flatten.length)
    have hfirst : ((Batch.ofPieces ⟨index, 0⟩ position (rows.batches size)).map (compiled, ·)).map
        (fun x => Task.fresh x.1 x.2) =
          (Batch.ofPieces ⟨index, 0⟩ position (rows.batches size)).map (Task.fresh compiled) := by
      rw [List.map_map]
      rfl
    simp only [World.start] at hrest htrials ⊢
    rw [plan, List.map_append, hfirst]
    constructor
    · refine contiguous_append hcont ?_
      rw [hrows, List.length_map]
      exact hrest
    · rw [List.flatMap_append, hrows, htrials, batches_flatten h]
      rfl

/-! ### The rows of a stage -/

/-- The rows of partitions, each with the fast path that the memo gives for its partition. -/
def Stage.trials (s : Stage) (settings : Settings) (memo : FastPath.Memo) (partitions : List Partition) : List Trial :=
  (s.equip settings memo partitions).1.flatMap Share.trials

theorem equip_rows (s : Stage) (settings : Settings) (memo : FastPath.Memo) (partitions : List Partition) :
    (s.equip settings memo partitions).1.map (·.2) = partitions := by
  induction partitions generalizing memo with
  | nil => rfl
  | cons rows partitions ih => exact congrArg (rows :: ·) (ih _)

theorem trials_rows (s : Stage) (settings : Settings) (memo : FastPath.Memo) (partitions : List Partition) :
    (s.trials settings memo partitions).map (·.2) = partitions.flatten := by
  have hrows (x : Share) : x.trials.map (·.2) = x.2 := by
    rw [Share.trials, List.map_map]
    exact List.map_id x.2
  rw [Stage.trials, List.map_flatMap]
  simp only [hrows]
  rw [List.flatMap_def, equip_rows]

/-! ### Stages one after the other -/

variable {cancelled : Bool} {index : Nat} {memo : FastPath.Memo} {partitions given last : List Partition} {tally : Tally}

theorem runFrom_cons_of_ok (h : (s.run settings cancelled index memo partitions).1 = .ok (given, tally))
    (stages : List Stage) :
    runFrom settings cancelled index memo partitions (s :: stages) =
      (fun r => (r.1, ⟨(s.name, tally) :: r.2.stages⟩)) <$>
        runFrom settings cancelled (index + 1) (s.run settings cancelled index memo partitions).2 given stages := by
  rw [runFrom]
  dsimp only
  rw [h]
  change (runFrom settings cancelled (index + 1) _ given stages >>= _) = _
  cases runFrom settings cancelled (index + 1) _ given stages <;> rfl

/-- When a pipeline comes to its end, its first stage does, and the stages after it do with what it gives. -/
theorem runFrom_cons_eq_ok {stages : List Stage} {report : Report}
    (h : runFrom settings cancelled index memo partitions (s :: stages) = .ok (last, report)) :
    ∃ given tally rest, (s.run settings cancelled index memo partitions).1 = .ok (given, tally) ∧
      runFrom settings cancelled (index + 1) (s.run settings cancelled index memo partitions).2 given stages =
        .ok (last, rest) ∧
      report = ⟨(s.name, tally) :: rest.stages⟩ := by
  rw [runFrom] at h
  obtain ⟨⟨given, tally⟩, hrun, h⟩ := bind_eq_ok h
  obtain ⟨⟨last', rest⟩, hlater, h⟩ := bind_eq_ok h
  cases h
  exact ⟨given, tally, rest, hrun, hlater, rfl⟩

end
end Millrace
