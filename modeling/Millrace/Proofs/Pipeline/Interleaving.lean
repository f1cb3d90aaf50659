import Mathlib.Logic.Relation
import Millrace.Pipeline.Run
import Millrace.Proofs.Pipeline.Sweep

/-!
# Batches under way at the same time

The batches of a stage are worked on row by row in any order, by workers that share the signals (`Step`).  A worker
may see signals that are out of date.  In every world that can be reached, a batch that ended tells the truth about
its rows, and one that gave up has a reason to (`Invariant`).  So the outcome does not depend on the order.

## Main statements

* `invariant_of_reaches`: the invariant of all worlds.
* `left_lt_of_work`, `exists_ended`: row steps come to an end, and then every batch has ended.
-/

namespace Millrace

namespace Signals

/-- Signals that a worker may have read by now.  It may have missed the cancellation or a failure, but it cannot
have read of any that did not happen. -/
def Shows (now seen : Signals) : Prop :=
  (seen.cancelled = true → now.cancelled = true) ∧
    ∀ p, seen.firstFailure = some p → ∃ q, now.firstFailure = some q ∧ q ≤ p

/-- The signals after a batch made a step. -/
def record (signals : Signals) : Batch ⊕ BatchResult → Signals
  | .inr (.failed position _) => signals.fail position
  | _ => signals

theorem shows_refl (signals : Signals) : signals.Shows signals :=
  ⟨id, fun p hp => ⟨p, hp, Nat.le_refl p⟩⟩

/-- The signals in which nothing has happened yet are shown by all others. -/
theorem shows_start (signals : Signals) : signals.Shows {} := by
  constructor
  · intro h
    cases h
  · intro p hp
    cases hp

theorem fail_shows (signals : Signals) (p : Nat) : (signals.fail p).Shows signals := by
  refine ⟨id, fun q hq => ?_⟩
  refine ⟨min p q, ?_, by omega⟩
  simp only [fail, hq, Option.elim_some]

theorem record_shows (signals : Signals) (next : Batch ⊕ BatchResult) : (signals.record next).Shows signals := by
  unfold record
  split
  · exact fail_shows signals _
  · exact shows_refl signals

/-- The least failure after another one is one of the two. -/
theorem firstFailure_fail {signals : Signals} {p q : Nat} (h : (signals.fail p).firstFailure = some q) :
    q = p ∨ signals.firstFailure = some q := by
  unfold fail at h
  cases hf : signals.firstFailure with
  | none =>
    simp only [hf, Option.elim_none, Option.some.injEq] at h
    exact Or.inl h.symm
  | some r =>
    simp only [hf, Option.elim_some, Option.some.injEq] at h
    rcases Nat.le_total p r with hle | hle
    · left
      omega
    · right
      rw [show q = r by omega]

end Signals

/-! ### Worlds -/

/-- A batch in the hands of a worker. -/
structure Task where
  compiled : Option FastPath.Compiled
  /-- The batch as the worker got it. -/
  given : Batch
  /-- How far the worker has come. -/
  state : Batch ⊕ BatchResult

/-- The batches of a stage and what they share. -/
structure World where
  signals : Signals
  tasks : List Task

namespace Task

/-- A batch that is still to be worked on. -/
def fresh (compiled : Option FastPath.Compiled) (b : Batch) : Task := ⟨compiled, b, .inl b⟩

/-- The rows of a batch, each with the fast path that is tried on it. -/
def rows (t : Task) : List Trial := t.given.pending.map (t.compiled, ·)

/-- The rows of a batch one after the other. -/
def sweep (s : Stage) (t : Task) : Except (Nat × Fault) (List Row × Tally) := s.sweep t.given.position t.rows

end Task

/-- A worker works on the next row of its batch, or ends it. -/
inductive Work (s : Stage) : World → World → Prop
  | step {signals seen : Signals} {before after : List Task} {t : Task} {b : Batch} :
    t.state = .inl b → signals.Shows seen →
      Work s ⟨signals, before ++ t :: after⟩
        ⟨signals.record (b.step s t.compiled seen).2,
          before ++ { t with state := (b.step s t.compiled seen).2 } :: after⟩

/-- What can happen while a stage is worked on. -/
inductive Step (s : Stage) : World → World → Prop
  | work {w w' : World} : Work s w w' → Step s w w'
  | cancel {w : World} : Step s w { w with signals := { w.signals with cancelled := true } }

/-- Any number of steps. -/
abbrev Reaches (s : Stage) : World → World → Prop := Relation.ReflTransGen (Step s)

/-- The world in which all batches of a plan are still to be worked on. -/
def World.start (plan : List (Option FastPath.Compiled × Batch)) : World :=
  ⟨{}, plan.map fun x => Task.fresh x.1 x.2⟩

/-! ### One step of a batch -/

section
variable {s : Stage} {signals seen : Signals} {w w' : World} {t : Task} {b : Batch}
  {compiled : Option FastPath.Compiled}

/-- What a step of a batch can be. -/
theorem step_cases (s : Stage) (compiled : Option FastPath.Compiled) (seen : Signals) (b : Batch) :
    (b.pending = [] ∧ (b.step s compiled seen).2 = .inr (.done b.output b.tally)) ∨
    (seen.stop b.position = true ∧ (b.step s compiled seen).2 = .inr .abandoned) ∨
    ∃ row rest, b.pending = row :: rest ∧
      ((∃ e, s.faultOf? (compiled, row) = some e ∧ (b.step s compiled seen).2 = .inr (.failed b.position e)) ∨
        s.faultOf? (compiled, row) = none ∧ (b.step s compiled seen).2 = .inl ⟨b.slot, b.position + 1, rest,
          b.output ++ s.outputOf (compiled, row), b.tally + s.countOf (compiled, row)⟩) := by
  cases hb : b.pending with
  | nil =>
    left
    simp only [Batch.step, hb, and_self]
  | cons row rest =>
    right
    by_cases hstop : seen.stop b.position = true
    · left
      refine ⟨hstop, ?_⟩
      simp only [Batch.step, hb, hstop, ↓reduceIte]
    · right
      refine ⟨row, rest, rfl, ?_⟩
      rcases hp : s.process compiled row with ⟨r, tally⟩
      cases r with
      | error e =>
        left
        refine ⟨e, ?_, ?_⟩
        · simp only [Stage.faultOf?, hp]
        · simp only [Batch.step, hb, hstop, hp]
          rfl
      | ok kept =>
        right
        refine ⟨?_, ?_⟩
        · simp only [Stage.faultOf?, hp]
        · simp only [Batch.step, hb, hstop, hp, Stage.outputOf, Stage.countOf]
          rfl

/-! ### The invariant -/

/-- How a batch stands to its rows: it got through those behind it, and its result is theirs.  If it gave up, then
because of the cancellation, or of a failure before the first of its own. -/
inductive Sound (s : Stage) (signals : Signals) (t : Task) : Prop
  | running {b : Batch} {past : List Row} : t.state = .inl b → t.given.pending = past ++ b.pending →
      b.position = t.given.position + past.length →
      s.sweep t.given.position (past.map (t.compiled, ·)) = .ok (b.output, b.tally) → Sound s signals t
  | done {output : List Row} {tally : Tally} : t.state = .inr (.done output tally) →
      t.sweep s = .ok (output, tally) → Sound s signals t
  | failed {p : Nat} {e : Fault} : t.state = .inr (.failed p e) → t.sweep s = .error (p, e) → Sound s signals t
  | cancelled : t.state = .inr .abandoned → signals.cancelled = true → Sound s signals t
  | late {q : Nat} : t.state = .inr .abandoned → signals.firstFailure = some q →
      (∀ p e, t.sweep s = .error (p, e) → q < p) → Sound s signals t

/-- Later signals leave a batch sound. -/
theorem Sound.mono {signals' : Signals} (h : Sound s signals t) (hs : signals'.Shows signals) :
    Sound s signals' t := by
  cases h with
  | running hstate hrows hpos hsweep => exact .running hstate hrows hpos hsweep
  | done hstate hsweep => exact .done hstate hsweep
  | failed hstate hsweep => exact .failed hstate hsweep
  | cancelled hstate hc => exact .cancelled hstate (hs.1 hc)
  | late hstate hq hlate =>
    obtain ⟨q', hq', hle⟩ := hs.2 _ hq
    exact .late hstate hq' fun p e hp => Nat.lt_of_le_of_lt hle (hlate p e hp)

/-- A batch stays sound when its worker makes a step. -/
theorem Sound.step (h : Sound s signals t) (hstate : t.state = .inl b) (hseen : signals.Shows seen) :
    Sound s (signals.record (b.step s t.compiled seen).2) { t with state := (b.step s t.compiled seen).2 } := by
  cases h with
  | done hs _ | failed hs _ | cancelled hs _ | late hs _ _ =>
    rw [hstate] at hs
    cases hs
  | @running b' past hs hrows hpos hsweep =>
    rw [hstate] at hs
    cases hs
    have htrials : t.rows = past.map (t.compiled, ·) ++ b.pending.map (t.compiled, ·) := by
      rw [Task.rows, hrows, List.map_append]
    rcases step_cases s t.compiled seen b with ⟨hb, hnext⟩ | ⟨hstop, hnext⟩ | ⟨row, rest, hb, hrow⟩
    · -- no row is left, so the rows behind are all rows
      refine .done hnext ?_
      change s.sweep t.given.position t.rows = _
      rw [htrials, hb, List.map_nil, List.append_nil]
      exact hsweep
    · have hshows := Signals.record_shows signals (b.step s t.compiled seen).2
      rw [Signals.stop, Bool.or_eq_true] at hstop
      rcases hstop with hc | hany
      · exact .cancelled hnext (hshows.1 (hseen.1 hc))
      · rw [Option.any_eq_true] at hany
        obtain ⟨q, hq, hlt⟩ := hany
        obtain ⟨q', hq', hle'⟩ := hseen.2 q hq
        obtain ⟨q'', hq'', hle''⟩ := hshows.2 q' hq'
        -- the rows behind did not fail, so a failure of the batch comes after the one that was seen
        refine .late hnext hq'' fun p e hp => ?_
        change s.sweep t.given.position t.rows = _ at hp
        rw [htrials] at hp
        have hlast := Stage.le_of_sweep_error hsweep hp
        rw [List.length_map] at hlast
        have hlt' : q < b.position := of_decide_eq_true hlt
        omega
    · rcases hrow with ⟨e, hfault, hnext⟩ | ⟨hnone, hnext⟩
      · refine .failed hnext ?_
        change s.sweep t.given.position t.rows = _
        rw [htrials, hb, List.map_cons, Stage.sweep_of_fault hsweep hfault, List.length_map, hpos]
      · have hpast : t.given.pending = (past ++ [row]) ++ rest := by
          rw [hrows, hb, List.append_assoc, List.singleton_append]
        refine .running hnext hpast ?_ ?_
        · rw [List.length_append, List.length_singleton, hpos, Nat.add_assoc]
        · rw [List.map_append]
          exact Stage.sweep_snoc_of_ok hsweep hnone

/-- What is true of every world that can be reached. -/
structure Invariant (s : Stage) (w : World) : Prop where
  sound : ∀ t ∈ w.tasks, Sound s w.signals t
  /-- A failure is known of only when a batch failed there. -/
  recorded : ∀ q, w.signals.firstFailure = some q → ∃ t ∈ w.tasks, ∃ e, t.state = .inr (.failed q e)

theorem invariant_start (s : Stage) (plan : List (Option FastPath.Compiled × Batch))
    (h : ∀ x ∈ plan, x.2.output = [] ∧ x.2.tally = 0) : Invariant s (World.start plan) := by
  constructor
  · intro t ht
    obtain ⟨⟨compiled, b⟩, hx, rfl⟩ := List.mem_map.1 ht
    obtain ⟨hout, htally⟩ := h _ hx
    have hpast : (Task.fresh compiled b).given.pending = [] ++ b.pending := rfl
    refine .running rfl hpast rfl ?_
    rw [hout, htally]
    rfl
  · intro q hq
    cases hq

theorem invariant_of_work (h : Invariant s w) (hw : Work s w w') : Invariant s w' := by
  cases hw with
  | @step signals seen before after t b hstate hseen =>
    have ht := h.sound t (by simp)
    constructor
    · intro u hu
      rw [List.mem_append, List.mem_cons] at hu
      rcases hu with hu | rfl | hu
      · exact (h.sound u (by simp [hu])).mono (Signals.record_shows signals _)
      · exact ht.step hstate hseen
      · exact (h.sound u (by simp [hu])).mono (Signals.record_shows signals _)
    · intro q hq
      -- the failure was known before, or the batch failed just now
      have hcases : (∃ e, (b.step s t.compiled seen).2 = .inr (.failed q e)) ∨ signals.firstFailure = some q := by
        dsimp only at hq
        unfold Signals.record at hq
        split at hq
        · next p e hnext =>
          rcases Signals.firstFailure_fail hq with rfl | hold
          · exact Or.inl ⟨e, hnext⟩
          · exact Or.inr hold
        · exact Or.inr hq
      rcases hcases with ⟨e, hnext⟩ | hold
      · exact ⟨_, List.mem_append_right _ (List.mem_cons_self ..), e, hnext⟩
      · obtain ⟨u, hu, e, hfailed⟩ := h.recorded q hold
        rw [List.mem_append, List.mem_cons] at hu
        rcases hu with hu | rfl | hu
        · exact ⟨u, by simp [hu], e, hfailed⟩
        · rw [hstate] at hfailed
          cases hfailed
        · exact ⟨u, by simp [hu], e, hfailed⟩

theorem invariant_of_step (h : Invariant s w) (hs : Step s w w') : Invariant s w' := by
  cases hs with
  | work hw => exact invariant_of_work h hw
  | cancel =>
    constructor
    · intro t ht
      exact (h.sound t ht).mono ⟨fun _ => rfl, fun p hp => ⟨p, hp, Nat.le_refl p⟩⟩
    · exact h.recorded

theorem invariant_of_reaches (h : Invariant s w) (hr : Reaches s w w') : Invariant s w' := by
  induction hr with
  | refl => exact h
  | tail _ hs ih => exact invariant_of_step ih hs

/-- Steps leave the batches as they were given to the workers. -/
theorem given_of_reaches (hr : Reaches s w w') :
    w'.tasks.map (fun t => (t.compiled, t.given)) = w.tasks.map (fun t => (t.compiled, t.given)) := by
  induction hr with
  | refl => rfl
  | tail _ hs ih =>
    rw [← ih]
    cases hs with
    | cancel => rfl
    | work hw =>
      cases hw with
      | step _ _ => simp only [List.map_append, List.map_cons]

/-! ### The end of a stage -/

/-- The steps that a batch may still make. -/
def Task.left (t : Task) : Nat :=
  match t.state with
  | .inl b => b.pending.length + 1
  | .inr _ => 0

/-- The row steps that may still be made. -/
def World.left (w : World) : Nat := (w.tasks.map Task.left).sum

/-- Every batch has ended, and these are the results, each with the slot of its batch. -/
def World.Ended (w : World) (results : List (Slot × BatchResult)) : Prop :=
  w.tasks.map (fun t => (t.given.slot, t.state)) = results.map fun x => (x.1, .inr x.2)

/-- Row steps come to an end. -/
theorem left_lt_of_work (hw : Work s w w') : w'.left < w.left := by
  cases hw with
  | @step signals seen before after t b hstate hseen =>
    have hlt : ({ t with state := (b.step s t.compiled seen).2 } : Task).left < t.left := by
      have hleft : t.left = b.pending.length + 1 := by simp only [Task.left, hstate]
      rw [hleft]
      rcases step_cases s t.compiled seen b with ⟨-, hnext⟩ | ⟨-, hnext⟩ | ⟨row, rest, hb, ⟨e, -, hnext⟩ | ⟨-, hnext⟩⟩
      · simp only [Task.left, hnext]
        omega
      · simp only [Task.left, hnext]
        omega
      · simp only [Task.left, hnext]
        omega
      · simp only [Task.left, hnext, hb, List.length_cons]
        omega
    simp only [World.left, List.map_append, List.map_cons, List.sum_append, List.sum_cons]
    omega

/-- As long as a batch is under way, its worker can make a step. -/
theorem exists_work (hleft : 0 < w.left) : ∃ w', Work s w w' := by
  have hrunning : ∃ t ∈ w.tasks, 0 < t.left := by
    by_contra hnone
    have hzero : ∀ n ∈ w.tasks.map Task.left, n = 0 := by
      intro n hn
      obtain ⟨t, ht, rfl⟩ := List.mem_map.1 hn
      by_contra hpos
      exact hnone ⟨t, ht, Nat.pos_of_ne_zero hpos⟩
    have := List.sum_eq_zero hzero
    rw [World.left] at hleft
    omega
  obtain ⟨t, ht, hpos⟩ := hrunning
  obtain ⟨before, after, htasks⟩ := List.append_of_mem ht
  cases hstate : t.state with
  | inr r =>
    simp only [Task.left, hstate] at hpos
    omega
  | inl b =>
    obtain ⟨signals, tasks⟩ := w
    dsimp only at htasks
    subst htasks
    exact ⟨_, .step hstate signals.shows_refl⟩

theorem ended_of_left_eq_zero (hleft : w.left = 0) : ∃ results, w.Ended results := by
  obtain ⟨signals, tasks⟩ := w
  unfold World.Ended
  dsimp only [World.left] at hleft ⊢
  induction tasks with
  | nil => exact ⟨[], rfl⟩
  | cons t tasks ih =>
    rw [List.map_cons, List.sum_cons] at hleft
    obtain ⟨results, hresults⟩ := ih (by omega)
    cases hstate : t.state with
    | inl b =>
      have hpos : 0 < t.left := by
        simp only [Task.left, hstate]
        omega
      omega
    | inr r =>
      refine ⟨(t.given.slot, r) :: results, ?_⟩
      rw [List.map_cons, List.map_cons, hstate, hresults]

/-- From every world, row steps lead to one in which all batches have ended. -/
theorem exists_ended (s : Stage) (w : World) :
    ∃ w' results, Relation.ReflTransGen (Work s) w w' ∧ w'.Ended results := by
  induction hn : w.left using Nat.strongRecOn generalizing w with
  | _ n ih =>
    rcases Nat.eq_zero_or_pos n with h0 | hpos
    · obtain ⟨results, hresults⟩ := ended_of_left_eq_zero (hn.trans h0)
      exact ⟨w, results, .refl, hresults⟩
    · obtain ⟨w₁, hw⟩ := exists_work (s := s) (w := w) (by omega)
      have hlt := left_lt_of_work hw
      obtain ⟨w', results, hreach, hended⟩ := ih w₁.left (by omega) w₁ rfl
      exact ⟨w', results, .head hw hreach, hended⟩

end
end Millrace
