import Millrace.Proofs.Pipeline.Outcome

/-!
# Cancelled runs

Every batch of a cancelled run gives up before its first row, so no row fails, and the stage that the batches belong
to reports that it was cancelled (`Stage.run_of_cancelled`).  A stage that drops repeated rows has no batches and does
not notice.  So a cancelled run fails at the first stage of any other kind (`runFrom_of_cancelled`).
-/

namespace Millrace

section
variable {s : Stage} {signals : Signals}

/-! ### Batches that give up -/

theorem Batch.step_of_cancelled (s : Stage) (compiled : Option FastPath.Compiled) (hc : signals.cancelled = true)
    (b : Batch) : ∃ r, b.step s compiled signals = (signals, .inr r) ∧ ∀ p e, r ≠ .failed p e := by
  unfold Batch.step
  split
  · refine ⟨_, rfl, ?_⟩
    rintro p e ⟨⟩
  · have hstop : signals.stop b.position = true := by
      rw [Signals.stop, hc, Bool.true_or]
    rw [if_pos hstop]
    refine ⟨_, rfl, ?_⟩
    rintro p e ⟨⟩

theorem Batch.run_of_cancelled (s : Stage) (compiled : Option FastPath.Compiled) (hc : signals.cancelled = true)
    (b : Batch) : ∃ r, b.run s compiled signals = (signals, r) ∧ ∀ p e, r ≠ .failed p e := by
  obtain ⟨r, hstep, hr⟩ := b.step_of_cancelled s compiled hc
  refine ⟨r, ?_, hr⟩
  rw [Batch.run]
  split
  · next hnext => cases hstep.symm.trans hnext
  · next hend =>
    cases hstep.symm.trans hend
    rfl

theorem Stage.runPlan_of_cancelled (s : Stage) (hc : signals.cancelled = true)
    (plan : List (Option FastPath.Compiled × Batch)) :
    (s.runPlan signals plan).1 = signals ∧ ∀ x ∈ (s.runPlan signals plan).2, ∀ p e, x.2 ≠ .failed p e := by
  induction plan with
  | nil => exact ⟨rfl, fun x hx => (nomatch hx)⟩
  | cons x plan ih =>
    obtain ⟨compiled, b⟩ := x
    obtain ⟨r, hrun, hr⟩ := b.run_of_cancelled s compiled hc
    obtain ⟨hsignals, hrest⟩ := ih
    simp only [Stage.runPlan, hrun]
    exact ⟨hsignals, List.forall_mem_cons.2 ⟨hr, hrest⟩⟩

/-- Where no row failed, a cancelled stage reports that it was cancelled. -/
theorem Stage.assemble_of_cancelled (s : Stage) (index : Nat) (slots : Slots) {joined : List (Slot × BatchResult)}
    (hnone : ∀ x ∈ joined, ∀ p e, x.2 ≠ .failed p e) :
    s.assemble index true slots joined = .error (.worker (.cancelled s.name)) := by
  have hfailure : (joined.foldl Progress.absorb { slots }).failure = none := by
    cases hf : (joined.foldl Progress.absorb { slots }).failure with
    | none => rfl
    | some failure =>
      rcases (foldl_absorb_failure hf).1 with hq | ⟨slot, hq⟩
      · cases hq
      · exact absurd rfl (hnone _ hq _ _)
  simp only [Stage.assemble, hfailure, ↓reduceIte]

/-! ### Stages -/

theorem Stage.run_of_cancelled (hu : s.action ≠ .unique) (settings : Settings) (index : Nat) (memo : FastPath.Memo)
    (partitions : List Partition) :
    (s.run settings true index memo partitions).1 = .error (.worker (.cancelled s.name)) := by
  have hc : ({ cancelled := true } : Signals).cancelled = true := rfl
  obtain ⟨hsignals, hnone⟩ := s.runPlan_of_cancelled hc
    (plan settings.batchSize 0 0 (s.equip settings memo partitions).1)
  unfold Stage.run
  split
  · next h => exact absurd h hu
  · dsimp only [Stage.work]
    rw [hsignals]
    exact s.assemble_of_cancelled index _ hnone

theorem Stage.run_of_unique (hu : s.action = .unique) (settings : Settings) (cancelled : Bool) (index : Nat)
    (memo : FastPath.Memo) (partitions : List Partition) :
    s.run settings cancelled index memo partitions = (.ok (uniqueRows [] partitions), memo) := by
  simp only [Stage.run, hu]

/-- Stages that drop repeated rows do not notice that the session was cancelled. -/
theorem runFrom_of_unique {stages : List Stage} (hu : ∀ s ∈ stages, s.action = .unique) (settings : Settings)
    (index : Nat) (memo : FastPath.Memo) (partitions : List Partition) :
    ∃ result, ∀ cancelled, runFrom settings cancelled index memo partitions stages = .ok result := by
  induction stages generalizing index partitions with
  | nil => exact ⟨_, fun cancelled => rfl⟩
  | cons s stages ih =>
    obtain ⟨hs, hstages⟩ := List.forall_mem_cons.1 hu
    obtain ⟨rest, hrest⟩ := ih hstages (index + 1) (uniqueRows [] partitions).1
    refine ⟨(rest.1, ⟨(s.name, (uniqueRows [] partitions).2) :: rest.2.stages⟩), fun cancelled => ?_⟩
    have hrun := Stage.run_of_unique hs settings cancelled index memo partitions
    rw [runFrom_cons_of_ok (congrArg Prod.fst hrun), hrun, hrest cancelled]
    rfl

/-- The first stage that works on batches ends a cancelled run. -/
theorem runFrom_of_cancelled {before : List Stage} (hbefore : ∀ t ∈ before, t.action = .unique)
    (hu : s.action ≠ .unique) (after : List Stage) (settings : Settings) (index : Nat) (memo : FastPath.Memo)
    (partitions : List Partition) :
    runFrom settings true index memo partitions (before ++ s :: after) = .error (.worker (.cancelled s.name)) := by
  induction before generalizing index partitions with
  | nil =>
    rw [List.nil_append, runFrom]
    dsimp only
    rw [Stage.run_of_cancelled hu]
    rfl
  | cons t before ih =>
    obtain ⟨ht, hrest⟩ := List.forall_mem_cons.1 hbefore
    have hrun := Stage.run_of_unique ht settings true index memo partitions
    rw [List.cons_append, runFrom_cons_of_ok (congrArg Prod.fst hrun), hrun, ih hrest]
    rfl

/-- Either all stages drop repeated rows, or there is a first one that does not. -/
theorem unique_or_first (stages : List Stage) :
    (∀ s ∈ stages, s.action = .unique) ∨ ∃ before s after, stages = before ++ s :: after ∧
      (∀ t ∈ before, t.action = .unique) ∧ s.action ≠ .unique := by
  induction stages with
  | nil => exact Or.inl fun s hs => (nomatch hs)
  | cons t stages ih =>
    by_cases ht : t.action = .unique
    · rcases ih with hall | ⟨before, s, after, rfl, hbefore, hs⟩
      · exact Or.inl (List.forall_mem_cons.2 ⟨ht, hall⟩)
      · exact Or.inr ⟨t :: before, s, after, rfl, List.forall_mem_cons.2 ⟨ht, hbefore⟩, hs⟩
    · exact Or.inr ⟨[], t, stages, rfl, fun t ht => (nomatch ht), ht⟩

end

end Millrace
