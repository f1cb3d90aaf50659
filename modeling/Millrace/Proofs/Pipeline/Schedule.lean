import Millrace.Proofs.Pipeline.Outcome

/-!
# Schedules of a stage

A schedule is any order of the row steps of the batches of a stage, with any order in which the batches are joined.
The outcome of a stage is the same for all of them (`outcome_of_reaches`), and working on one batch after the other
is one of them (`runPlan_reaches`).
-/

namespace Millrace

section
variable {s : Stage} {settings : Settings} {memo : FastPath.Memo} {partitions : List Partition} {size : Nat}
  {shares : List Share} {w : World}

/-! ### All schedules -/

private theorem rows_congr {t u : Task} (h : (t.compiled, t.given) = (u.compiled, u.given)) : t.rows = u.rows := by
  obtain ⟨hc, hg⟩ := Prod.mk.inj h
  rw [Task.rows, Task.rows, hc, hg]

/-- Consecutive batches stay consecutive while they are worked on. -/
theorem contiguous_congr {position : Nat} {tasks tasks' : List Task}
    (h : tasks'.map (fun t => (t.compiled, t.given)) = tasks.map fun t => (t.compiled, t.given))
    (hcont : Contiguous position tasks) :
    Contiguous position tasks' ∧ tasks'.flatMap Task.rows = tasks.flatMap Task.rows := by
  induction tasks generalizing tasks' position with
  | nil =>
    rw [List.map_nil, List.map_eq_nil_iff] at h
    subst h
    exact ⟨trivial, rfl⟩
  | cons t tasks ih =>
    cases tasks' with
    | nil => cases h
    | cons u tasks' =>
      rw [List.map_cons, List.map_cons, List.cons.injEq] at h
      obtain ⟨hhead, htail⟩ := h
      have hrows := rows_congr hhead
      obtain ⟨hrest, hrestrows⟩ := ih htail hcont.2
      refine ⟨⟨?_, ?_⟩, ?_⟩
      · rw [(Prod.mk.inj hhead).2]
        exact hcont.1
      · rw [hrows]
        exact hrest
      · rw [List.flatMap_cons, List.flatMap_cons, hrows, hrestrows]

/-- The batches of a plan start without output. -/
theorem invariant_plan (s : Stage) (size index position : Nat) (shares : List Share) :
    Invariant s (World.start (plan size index position shares)) := by
  refine invariant_start s _ ?_
  have hpieces : ∀ slot position (pieces : List (List Row)), ∀ b ∈ Batch.ofPieces slot position pieces,
      b.output = [] ∧ b.tally = 0 := by
    intro slot position pieces
    induction pieces generalizing slot position with
    | nil =>
      intro b hb
      cases hb
    | cons rows pieces ih =>
      intro b hb
      rw [Batch.ofPieces, List.mem_cons] at hb
      rcases hb with rfl | hb
      · exact ⟨rfl, rfl⟩
      · exact ih _ _ b hb
  induction shares generalizing index position with
  | nil =>
    intro x hx
    cases hx
  | cons share shares ih =>
    intro x hx
    rw [plan, List.mem_append] at hx
    rcases hx with hx | hx
    · obtain ⟨b, hb, rfl⟩ := List.mem_map.1 hx
      exact hpieces _ position _ b hb
    · exact ih _ _ x hx

theorem given_start (plan : List (Option FastPath.Compiled × Batch)) :
    (World.start plan).tasks.map (fun t => (t.compiled, t.given)) = plan := by
  rw [World.start, List.map_map]
  exact List.map_id plan

/-- In a world that is reached from a plan, the batches are those of the plan, and they are sound and consecutive. -/
theorem plan_of_reaches (hsize : size ≠ 0) (hreach : Reaches s (World.start (plan size 0 0 shares)) w) :
    w.tasks.map (fun t => (t.compiled, t.given)) = plan size 0 0 shares ∧
      Invariant s w ∧ Contiguous 0 w.tasks ∧ w.tasks.flatMap Task.rows = shares.flatMap Share.trials := by
  obtain ⟨hcont, hrows⟩ := contiguous_plan hsize 0 0 shares
  have hgiven := given_of_reaches hreach
  obtain ⟨hcont', hrows'⟩ := contiguous_congr hgiven hcont
  exact ⟨hgiven.trans (given_start _), invariant_of_reaches (invariant_plan s size 0 0 shares) hreach, hcont',
    hrows'.trans hrows⟩

/-- A cancelled run has no result, and does not miss any. -/
theorem assemble_cancelled (s : Stage) (index : Nat) (slots : Slots) (joined : List (Slot × BatchResult)) :
    (∀ r, s.assemble index true slots joined ≠ .ok r) ∧
      s.assemble index true slots joined ≠ .error (.worker (.missingBatch s.name)) := by
  unfold Stage.assemble
  dsimp only
  split
  · exact ⟨fun r h => (nomatch h), fun h => by cases h⟩
  · exact ⟨fun r h => (nomatch h), fun h => by cases h⟩

/-- The rows that come out of partitions are those that come out of their rows, in the same order. -/
theorem outputs_flatten (s : Stage) (shares : List Share) :
    ((shares.map s.outputs).filter (!·.isEmpty)).flatten = (shares.flatMap Share.trials).flatMap s.outputOf := by
  rw [flatten_filter_nonempty, ← List.flatMap_def, List.flatMap_assoc]
  refine List.flatMap_congr fun x _ => ?_
  rw [Stage.outputs, Share.trials, List.flatMap_map]

/-- The outcome of a stage is the same for all schedules.  Every schedule can be brought to its end.  At the end, the
batches may be joined in any order.  If the run was not cancelled, either no row fails, and the rows and counts are
those of all rows in their order, or the first row that fails is reported.  A result without failure is always
complete, and no batch is ever missing. -/
theorem outcome_of_reaches (hsize : size ≠ 0) (hreach : Reaches s (World.start (plan size 0 0 shares)) w)
    (index : Nat) :
    (∃ w' results, Relation.ReflTransGen (Work s) w w' ∧ w'.Ended results) ∧
    ∀ results joined, w.Ended results → joined.Perm results →
      let rows := shares.flatMap Share.trials
      let out := (shares.map s.outputs).filter (!·.isEmpty)
      let outcome := s.assemble index w.signals.cancelled (.empty size shares) joined
      out.flatten = rows.flatMap s.outputOf ∧
      (w.signals.cancelled = false →
        ((∀ x ∈ rows, s.faultOf? x = none) → outcome = .ok (out, (rows.map s.countOf).sum)) ∧
        ∀ (k : Nat) (x : Trial) (e : Fault), rows[k]? = some x → s.faultOf? x = some e →
          (∀ j < k, ∀ y, rows[j]? = some y → s.faultOf? y = none) →
          outcome = .error (.stage s.name index k e)) ∧
      (∀ r, outcome = .ok r → (∀ x ∈ rows, s.faultOf? x = none) ∧ r = (out, (rows.map s.countOf).sum)) ∧
      outcome ≠ .error (.worker (.missingBatch s.name)) := by
  refine ⟨exists_ended s w, ?_⟩
  intro results joined hend hjoin rows out outcome
  obtain ⟨hplan, hinv, hcont, hrows⟩ := plan_of_reaches hsize hreach
  refine ⟨outputs_flatten s shares, ?_⟩
  cases hgo : w.signals.cancelled with
  | true =>
    obtain ⟨hnoresult, hmissing⟩ := assemble_cancelled s index (.empty size shares) joined
    simp only [outcome, hgo]
    exact ⟨fun hfalse => (nomatch hfalse), fun r hok => absurd hok (hnoresult r), hmissing⟩
  | false =>
    have hok : (∀ x ∈ rows, s.faultOf? x = none) → outcome = .ok (out, (rows.map s.countOf).sum) := by
      intro hnone
      simp only [outcome, rows, hgo, ← hrows] at hnone ⊢
      exact assemble_of_ended_ok hsize hplan hinv hcont hgo hend hjoin hnone
    have herror : ∀ (k : Nat) (x : Trial) (e : Fault), rows[k]? = some x → s.faultOf? x = some e →
        (∀ j < k, ∀ y, rows[j]? = some y → s.faultOf? y = none) → outcome = .error (.stage s.name index k e) := by
      intro k x e hx hfault hfirst
      simp only [outcome, rows, hgo, ← hrows] at hx hfirst ⊢
      exact assemble_of_ended_error hinv hcont hgo hend hjoin hx hfault hfirst
    refine ⟨fun _ => ⟨hok, herror⟩, ?_⟩
    rcases Stage.no_fault_or_first s rows with hnone | ⟨k, x, e, hx, hfault, hfirst⟩
    · rw [hok hnone]
      refine ⟨fun r h => ?_, fun h => (nomatch h)⟩
      cases h
      exact ⟨hnone, rfl⟩
    · rw [herror k x e hx hfault hfirst]
      exact ⟨fun r h => (nomatch h), fun h => by cases h⟩

/-- The stage that keeps the first column. -/
def firstColumn : Stage := ⟨.select [0], []⟩

/-- A batch of one row. -/
def rowBatch (slot : Slot) (position : Nat) (row : Row) : Batch := ⟨slot, position, [row], [], {}⟩

/-- Two partitions of two rows, of which one has no columns. -/
def emptyRowShares : List Share := [(none, [[.int 1], []]), (none, [[.int 2], [.int 3]])]

/-- The results of their batches, when the last of them has seen the failure of the second. -/
def emptyRowResults : List (Slot × BatchResult) :=
  [(⟨0, 0⟩, .done [[.int 1]] { rowsIn := 1, rowsOut := 1 }), (⟨0, 1⟩, .failed 1 ⟨.column 0 0, []⟩),
    (⟨1, 0⟩, .done [[.int 2]] { rowsIn := 1, rowsOut := 1 }), (⟨1, 1⟩, .abandoned)]

/-- The second batch fails, and the last one gives up for it.  The third one has not seen the failure yet and is done,
as is the first one, which must not give up. -/
theorem reaches_emptyRow :
    ∃ w, Reaches firstColumn (World.start (plan 1 0 0 emptyRowShares)) w ∧ w.signals = ⟨some 1, false⟩ ∧
      w.Ended emptyRowResults := by
  let b₀ := rowBatch ⟨0, 0⟩ 0 [.int 1]
  let b₁ := rowBatch ⟨0, 1⟩ 1 []
  let b₂ := rowBatch ⟨1, 0⟩ 2 [.int 2]
  let b₃ := rowBatch ⟨1, 1⟩ 3 [.int 3]
  let past₀ : Batch := ⟨⟨0, 0⟩, 1, [], [[.int 1]], { rowsIn := 1, rowsOut := 1 }⟩
  let past₂ : Batch := ⟨⟨1, 0⟩, 3, [], [[.int 2]], { rowsIn := 1, rowsOut := 1 }⟩
  let done₀ : Task := ⟨none, b₀, .inr (.done [[.int 1]] { rowsIn := 1, rowsOut := 1 })⟩
  let failed₁ : Task := ⟨none, b₁, .inr (.failed 1 ⟨.column 0 0, []⟩)⟩
  let done₂ : Task := ⟨none, b₂, .inr (.done [[.int 2]] { rowsIn := 1, rowsOut := 1 })⟩
  let abandoned₃ : Task := ⟨none, b₃, .inr .abandoned⟩
  let known : Signals := ⟨some 1, false⟩
  have hstart : World.start (plan 1 0 0 emptyRowShares) =
      ⟨{}, [.fresh none b₀, .fresh none b₁, .fresh none b₂, .fresh none b₃]⟩ := by
    simp [World.start, plan, Partition.batches, cut, Batch.ofPieces, emptyRowShares, b₀, b₁, b₂, b₃, rowBatch]
  have hfail : Work firstColumn ⟨{}, [.fresh none b₀, .fresh none b₁, .fresh none b₂, .fresh none b₃]⟩
      ⟨known, [.fresh none b₀, failed₁, .fresh none b₂, .fresh none b₃]⟩ :=
    @Work.step firstColumn {} {} [.fresh none b₀] [.fresh none b₂, .fresh none b₃] (.fresh none b₁) b₁ rfl
      (Signals.shows_refl _)
  have hlate : Work firstColumn ⟨known, [.fresh none b₀, failed₁, .fresh none b₂, .fresh none b₃]⟩
      ⟨known, [.fresh none b₀, failed₁, .fresh none b₂, abandoned₃]⟩ :=
    @Work.step firstColumn known known [.fresh none b₀, failed₁, .fresh none b₂] [] (.fresh none b₃) b₃ rfl
      (Signals.shows_refl _)
  have hrow₂ : Work firstColumn ⟨known, [.fresh none b₀, failed₁, .fresh none b₂, abandoned₃]⟩
      ⟨known, [.fresh none b₀, failed₁, ⟨none, b₂, .inl past₂⟩, abandoned₃]⟩ :=
    @Work.step firstColumn known {} [.fresh none b₀, failed₁] [abandoned₃] (.fresh none b₂) b₂ rfl
      (Signals.shows_start _)
  have hdone₂ : Work firstColumn ⟨known, [.fresh none b₀, failed₁, ⟨none, b₂, .inl past₂⟩, abandoned₃]⟩
      ⟨known, [.fresh none b₀, failed₁, done₂, abandoned₃]⟩ :=
    @Work.step firstColumn known known [.fresh none b₀, failed₁] [abandoned₃] ⟨none, b₂, .inl past₂⟩ past₂ rfl
      (Signals.shows_refl _)
  have hrow₀ : Work firstColumn ⟨known, [.fresh none b₀, failed₁, done₂, abandoned₃]⟩
      ⟨known, [⟨none, b₀, .inl past₀⟩, failed₁, done₂, abandoned₃]⟩ :=
    @Work.step firstColumn known known [] [failed₁, done₂, abandoned₃] (.fresh none b₀) b₀ rfl (Signals.shows_refl _)
  have hdone₀ : Work firstColumn ⟨known, [⟨none, b₀, .inl past₀⟩, failed₁, done₂, abandoned₃]⟩
      ⟨known, [done₀, failed₁, done₂, abandoned₃]⟩ :=
    @Work.step firstColumn known known [] [failed₁, done₂, abandoned₃] ⟨none, b₀, .inl past₀⟩ past₀ rfl
      (Signals.shows_refl _)
  refine ⟨⟨known, [done₀, failed₁, done₂, abandoned₃]⟩, ?_, rfl, rfl⟩
  rw [hstart]
  exact (((((Relation.ReflTransGen.single (.work hfail)).tail (.work hlate)).tail (.work hrow₂)).tail
    (.work hdone₂)).tail (.work hrow₀)).tail (.work hdone₀)

/-- Two partitions of one row. -/
def pairShares : List Share := [(none, [[.int 1, .int 3]]), (none, [[.int 2, .int 4]])]

/-- The results of their batches. -/
def pairResults : List (Slot × BatchResult) :=
  [(⟨0, 0⟩, .done [[.int 1]] { rowsIn := 1, rowsOut := 1 }), (⟨1, 0⟩, .done [[.int 2]] { rowsIn := 1, rowsOut := 1 })]

/-- The second batch is done before the first one has begun. -/
theorem reaches_pair :
    ∃ w, Reaches firstColumn (World.start (plan 1 0 0 pairShares)) w ∧ w.signals = {} ∧ w.Ended pairResults := by
  let b₀ := rowBatch ⟨0, 0⟩ 0 [.int 1, .int 3]
  let b₁ := rowBatch ⟨1, 0⟩ 1 [.int 2, .int 4]
  let past₀ : Batch := ⟨⟨0, 0⟩, 1, [], [[.int 1]], { rowsIn := 1, rowsOut := 1 }⟩
  let past₁ : Batch := ⟨⟨1, 0⟩, 2, [], [[.int 2]], { rowsIn := 1, rowsOut := 1 }⟩
  let done₀ : Task := ⟨none, b₀, .inr (.done [[.int 1]] { rowsIn := 1, rowsOut := 1 })⟩
  let done₁ : Task := ⟨none, b₁, .inr (.done [[.int 2]] { rowsIn := 1, rowsOut := 1 })⟩
  have hstart : World.start (plan 1 0 0 pairShares) = ⟨{}, [.fresh none b₀, .fresh none b₁]⟩ := by
    simp [World.start, plan, Partition.batches, cut, Batch.ofPieces, pairShares, b₀, b₁, rowBatch]
  have hrow₁ : Work firstColumn ⟨{}, [.fresh none b₀, .fresh none b₁]⟩ ⟨{}, [.fresh none b₀, ⟨none, b₁, .inl past₁⟩]⟩ :=
    @Work.step firstColumn {} {} [.fresh none b₀] [] (.fresh none b₁) b₁ rfl (Signals.shows_refl _)
  have hdone₁ : Work firstColumn ⟨{}, [.fresh none b₀, ⟨none, b₁, .inl past₁⟩]⟩ ⟨{}, [.fresh none b₀, done₁]⟩ :=
    @Work.step firstColumn {} {} [.fresh none b₀] [] ⟨none, b₁, .inl past₁⟩ past₁ rfl (Signals.shows_refl _)
  have hrow₀ : Work firstColumn ⟨{}, [.fresh none b₀, done₁]⟩ ⟨{}, [⟨none, b₀, .inl past₀⟩, done₁]⟩ :=
    @Work.step firstColumn {} {} [] [done₁] (.fresh none b₀) b₀ rfl (Signals.shows_refl _)
  have hdone₀ : Work firstColumn ⟨{}, [⟨none, b₀, .inl past₀⟩, done₁]⟩ ⟨{}, [done₀, done₁]⟩ :=
    @Work.step firstColumn {} {} [] [done₁] ⟨none, b₀, .inl past₀⟩ past₀ rfl (Signals.shows_refl _)
  refine ⟨⟨{}, [done₀, done₁]⟩, ?_, rfl, rfl⟩
  rw [hstart]
  exact (((Relation.ReflTransGen.single (.work hrow₁)).tail (.work hdone₁)).tail (.work hrow₀)).tail (.work hdone₀)

/-- Joined from the last to the first, the batches give the failure of the second row, or all rows in their order. -/
theorem outcome_of_reaches_firstColumn :
    (∃ w, Reaches firstColumn (World.start (plan 1 0 0 emptyRowShares)) w ∧ w.signals = ⟨some 1, false⟩ ∧
      w.Ended emptyRowResults ∧
      firstColumn.assemble 0 w.signals.cancelled (.empty 1 emptyRowShares) emptyRowResults.reverse =
        .error (.stage "select" 0 1 ⟨.column 0 0, []⟩)) ∧
    ∃ w, Reaches firstColumn (World.start (plan 1 0 0 pairShares)) w ∧ w.signals = {} ∧ w.Ended pairResults ∧
      firstColumn.assemble 0 w.signals.cancelled (.empty 1 pairShares) pairResults.reverse =
        .ok ([[[.int 1]], [[.int 2]]], { rowsIn := 2, rowsOut := 2 }) := by
  constructor
  · obtain ⟨w, hreach, hsignals, hend⟩ := reaches_emptyRow
    obtain ⟨-, houtcome, -⟩ := (outcome_of_reaches (by decide) hreach 0).2 _ _ hend (List.reverse_perm _)
    refine ⟨w, hreach, hsignals, hend, (houtcome (by rw [hsignals])).2 1 (none, []) _ rfl rfl fun j hj x hx => ?_⟩
    -- the only row before the second one has a first column
    obtain rfl : j = 0 := by omega
    cases hx
    rfl
  · obtain ⟨w, hreach, hsignals, hend⟩ := reaches_pair
    obtain ⟨-, houtcome, -⟩ := (outcome_of_reaches (by decide) hreach 0).2 _ _ hend (List.reverse_perm _)
    have hnone : ∀ x ∈ pairShares.flatMap Share.trials, firstColumn.faultOf? x = none := by
      intro x hx
      simp only [pairShares, Share.trials, List.flatMap_cons, List.map_cons, List.map_nil, List.flatMap_nil,
        List.cons_append, List.nil_append, List.mem_cons, List.not_mem_nil, or_false] at hx
      rcases hx with rfl | rfl <;> rfl
    exact ⟨w, hreach, hsignals, hend, (houtcome (by rw [hsignals])).1 hnone⟩

/-! ### One batch after the other -/

theorem step_signals (s : Stage) (compiled : Option FastPath.Compiled) (signals : Signals) (b : Batch) :
    (b.step s compiled signals).1 = signals.record (b.step s compiled signals).2 := by
  unfold Batch.step
  split
  · rfl
  · split
    · rfl
    · split <;> rfl

/-- A worker that has the signals to itself brings its batch to the end. -/
theorem run_reaches (s : Stage) (compiled : Option FastPath.Compiled) (signals : Signals) (b given : Batch)
    (before after : List Task) :
    Relation.ReflTransGen (Work s) ⟨signals, before ++ ⟨compiled, given, .inl b⟩ :: after⟩
      ⟨(b.run s compiled signals).1, before ++ ⟨compiled, given, .inr (b.run s compiled signals).2⟩ :: after⟩ := by
  induction hn : b.pending.length using Nat.strongRecOn generalizing b signals with
  | _ n ih =>
    have hwork : Work s ⟨signals, before ++ ⟨compiled, given, .inl b⟩ :: after⟩
        ⟨(b.step s compiled signals).1, before ++ ⟨compiled, given, (b.step s compiled signals).2⟩ :: after⟩ := by
      rw [step_signals]
      exact .step rfl signals.shows_refl
    rw [Batch.run]
    split
    · next signals' next hstep =>
      rw [hstep] at hwork
      have hlt := Batch.length_of_step hstep
      exact .head hwork (ih _ (by omega) signals' next rfl)
    · next signals' result hstep =>
      rw [hstep] at hwork
      exact .single hwork

theorem runPlan_works (s : Stage) (signals : Signals) (plan : List (Option FastPath.Compiled × Batch))
    (before : List Task) :
    ∃ tasks, tasks.map (fun t => (t.given.slot, t.state)) = (s.runPlan signals plan).2.map (fun x => (x.1, .inr x.2)) ∧
      Relation.ReflTransGen (Work s) ⟨signals, before ++ plan.map fun x => Task.fresh x.1 x.2⟩
        ⟨(s.runPlan signals plan).1, before ++ tasks⟩ := by
  induction plan generalizing signals before with
  | nil => exact ⟨[], rfl, .refl⟩
  | cons x plan ih =>
    obtain ⟨compiled, b⟩ := x
    have hfirst := run_reaches s compiled signals b b before (plan.map fun x => Task.fresh x.1 x.2)
    obtain ⟨tasks, hstates, hrest⟩ := ih (b.run s compiled signals).1
      (before ++ [⟨compiled, b, .inr (b.run s compiled signals).2⟩])
    refine ⟨⟨compiled, b, .inr (b.run s compiled signals).2⟩ :: tasks, ?_, ?_⟩
    · rw [List.map_cons, hstates]
      rfl
    · simp only [List.append_assoc, List.singleton_append] at hrest
      exact hfirst.trans hrest

/-- No row step cancels the run. -/
theorem cancelled_of_works {w' : World} (h : Relation.ReflTransGen (Work s) w w') :
    w'.signals.cancelled = w.signals.cancelled := by
  induction h with
  | refl => rfl
  | tail _ hw ih =>
    rw [← ih]
    cases hw with
    | @step signals seen before after t b _ _ =>
      change (signals.record _).cancelled = signals.cancelled
      unfold Signals.record
      split <;> rfl

/-- Working on one batch after the other is a schedule, and it is not cancelled on the way. -/
theorem runPlan_reaches (s : Stage) (plan : List (Option FastPath.Compiled × Batch)) :
    ∃ w, Reaches s (World.start plan) w ∧ w.signals = (s.runPlan {} plan).1 ∧ w.signals.cancelled = false ∧
      w.Ended (s.runPlan {} plan).2 := by
  obtain ⟨tasks, hstates, hworks⟩ := runPlan_works s {} plan []
  have hreach : Reaches s (World.start plan) ⟨(s.runPlan {} plan).1, [] ++ tasks⟩ :=
    Relation.ReflTransGen.mono (fun _ _ hw => Step.work hw) _ _ hworks
  refine ⟨_, hreach, rfl, ?_, hstates⟩
  exact cancelled_of_works hworks

theorem run_eq_work (hu : s.action ≠ .unique) (settings : Settings) (cancelled : Bool) (index : Nat)
    (memo : FastPath.Memo) (partitions : List Partition) :
    s.run settings cancelled index memo partitions =
      (s.work settings.batchSize cancelled index (s.equip settings memo partitions).1,
        (s.equip settings memo partitions).2) := by
  unfold Stage.run
  split
  · next h => exact absurd h hu
  · rfl

/-- A stage gives what its rows give one after the other. -/
theorem work_of_sweep_ok (index : Nat) {rows : List Row} {tally : Tally} (hsize : size ≠ 0)
    (hsweep : s.sweep 0 (shares.flatMap Share.trials) = .ok (rows, tally)) :
    s.work size false index shares = .ok ((shares.map s.outputs).filter (!·.isEmpty), tally) ∧
      ((shares.map s.outputs).filter (!·.isEmpty)).flatten = rows := by
  obtain ⟨w, hreach, hsignals, hgo, hend⟩ := runPlan_reaches s (plan size 0 0 shares)
  obtain ⟨hplan, hinv, hcont, hrows⟩ := plan_of_reaches hsize hreach
  obtain ⟨hnone, hout, htally⟩ := Stage.sweep_eq_ok_iff.1 hsweep
  rw [hout, htally]
  refine ⟨?_, outputs_flatten s shares⟩
  rw [← hrows] at hnone ⊢
  change s.assemble index (s.runPlan {} (plan size 0 0 shares)).1.cancelled _ _ = _
  rw [← hsignals, hgo]
  exact assemble_of_ended_ok hsize hplan hinv hcont hgo hend (List.Perm.refl _) hnone

/-- A stage fails where its rows fail one after the other. -/
theorem work_of_sweep_error (index : Nat) {k : Nat} {e : Fault} (hsize : size ≠ 0)
    (hsweep : s.sweep 0 (shares.flatMap Share.trials) = .error (k, e)) :
    s.work size false index shares = .error (.stage s.name index k e) := by
  obtain ⟨w, hreach, hsignals, hgo, hend⟩ := runPlan_reaches s (plan size 0 0 shares)
  obtain ⟨-, hinv, hcont, hrows⟩ := plan_of_reaches hsize hreach
  obtain ⟨j, x, hj, hx, hfault, hfirst⟩ := Stage.sweep_eq_error_iff.1 hsweep
  rw [← hrows] at hx hfirst
  change s.assemble index (s.runPlan {} (plan size 0 0 shares)).1.cancelled _ _ = _
  rw [← hsignals, hgo, hj, Nat.zero_add]
  exact assemble_of_ended_error hinv hcont hgo hend (List.Perm.refl _) hx hfault hfirst

theorem run_of_sweep_ok (index : Nat) {rows : List Row} {tally : Tally} (hu : s.action ≠ .unique)
    (hsize : settings.batchSize ≠ 0) (hsweep : s.sweep 0 (s.trials settings memo partitions) = .ok (rows, tally)) :
    ∃ out, (s.run settings false index memo partitions).1 = .ok (out, tally) ∧ out.flatten = rows := by
  rw [run_eq_work hu]
  exact ⟨_, work_of_sweep_ok index hsize hsweep⟩

theorem run_of_sweep_error (index : Nat) {k : Nat} {e : Fault} (hu : s.action ≠ .unique)
    (hsize : settings.batchSize ≠ 0) (hsweep : s.sweep 0 (s.trials settings memo partitions) = .error (k, e)) :
    (s.run settings false index memo partitions).1 = .error (.stage s.name index k e) := by
  rw [run_eq_work hu]
  exact work_of_sweep_error index hsize hsweep

end
end Millrace
