import Millrace.FastPath.Memo
import Millrace.Pipeline.Batch
import Millrace.Settings

/-!
# Running a pipeline

The rows are cut into partitions, and the stages run one after the other over all of them.  For every partition a
schema is guessed, and a memo that lasts for the run is asked for the fast path of the stage's lambda; then the batches
are worked on.  Each of them has a slot, into which its rows are put when it is joined, so that they come out in the
order of the rows.  If rows failed, the first of them in the order of the rows is the one that is reported.
-/

namespace Millrace

/-- Rows that are likely to have the same schema. -/
abbrev Partition := List Row

/-- Cuts a list into pieces of `size` items and a rest; a size of zero counts as one. -/
def cut {α : Type} (size : Nat) : List α → List (List α)
  | [] => []
  | x :: rest => (x :: rest.take (size - 1)) :: cut size (rest.drop (size - 1))
termination_by items => items.length
decreasing_by simp only [List.length_drop, List.length_cons]; omega

theorem flatten_cut {α : Type} (size : Nat) (items : List α) : (cut size items).flatten = items := by
  fun_induction cut size items with
  | case1 => rfl
  | case2 x rest ih => rw [List.flatten_cons, ih, List.cons_append, List.take_append_drop]

/-- The partitions that rows are cut into. -/
def Partition.split (size : Nat) (rows : List Row) : List Partition := cut size rows

/-- The rows of the batches that a partition is cut into; with a batch size of zero there are none. -/
def Partition.batches (size : Nat) (rows : Partition) : List (List Row) := if size = 0 then [] else cut size rows

/-- The schema of what the lambda of a stage sees of rows of a schema. -/
def Action.schema (a : Action) (s : Schema) : Schema :=
  match a with
  | .mapColumn column _ => ((s.columns?.bind (·[column]?)).map fun t => Schema.row [t]).getD .unspecialized
  | _ => s

/-! ### Fast paths -/

/-- A partition, with the fast path that is tried on its rows. -/
abbrev Share := Option FastPath.Compiled × Partition

namespace Stage

/-- The fast path of a stage for a partition, which the memo is asked for. -/
def fastPath (s : Stage) (settings : Settings) (memo : FastPath.Memo) (rows : Partition) :
    Option FastPath.Compiled × FastPath.Memo :=
  match s.action.registered? with
  | some f =>
    if settings.fastPath then memo.get f (s.action.schema (settings.inference.infer rows)) else (none, memo)
  | none => (none, memo)

/-- Finds the fast paths for several partitions, one after the other. -/
def equip (s : Stage) (settings : Settings) (memo : FastPath.Memo) : List Partition → List Share × FastPath.Memo
  | [] => ([], memo)
  | rows :: rest =>
    let (compiled, memo) := s.fastPath settings memo rows
    let (shares, memo) := s.equip settings memo rest
    ((compiled, rows) :: shares, memo)

end Stage

/-! ### Batches -/

/-- The batches of consecutive pieces of a partition, of which the first goes to `slot` and starts in `position`. -/
def Batch.ofPieces (slot : Slot) (position : Nat) : List (List Row) → List Batch
  | [] => []
  | rows :: rest =>
    ⟨slot, position, rows, [], {}⟩ :: Batch.ofPieces ⟨slot.partition, slot.batch + 1⟩ (position + rows.length) rest

/-- The batches of several partitions, each with its fast path.  The first partition has the place `index` among all of
them, and its rows are counted from `position` on. -/
def plan (size index position : Nat) : List Share → List (Option FastPath.Compiled × Batch)
  | [] => []
  | (compiled, rows) :: rest =>
    let pieces := rows.batches size
    (Batch.ofPieces ⟨index, 0⟩ position pieces).map (compiled, ·) ++
      plan size (index + 1) (position + pieces.flatten.length) rest

/-- Works on batches one after the other. -/
def Stage.runPlan (s : Stage) (signals : Signals) :
    List (Option FastPath.Compiled × Batch) → Signals × List (Slot × BatchResult)
  | [] => (signals, [])
  | (compiled, b) :: rest =>
    let (signals, result) := b.run s compiled signals
    let (signals, results) := s.runPlan signals rest
    (signals, (b.slot, result) :: results)

/-! ### Joining batches -/

/-- The rows that came out of the batches of a stage, by their partitions and their places there.  A slot is empty as
long as its batch has not been joined, and it stays so when the batch did not come to its end. -/
abbrev Slots := List (List (Option (List Row)))

namespace Slots

/-- Empty slots for the batches of several partitions. -/
def empty (size : Nat) (shares : List Share) : Slots := shares.map fun x => (x.2.batches size).map fun _ => none

/-- Puts the rows of a batch into its slot. -/
def put (slots : Slots) (slot : Slot) (rows : List Row) : Slots :=
  slots.modify slot.partition fun batches => batches.set slot.batch (some rows)

/-- The rows of all partitions, if no slot is empty. -/
def collect? (slots : Slots) : Option (List Partition) :=
  slots.mapM fun batches => List.flatten <$> batches.mapM id

end Slots

/-- What is known of a stage from the batches that were joined. -/
structure Progress where
  slots : Slots
  tally : Tally := {}
  /-- The failed row that comes first, with its fault. -/
  failure : Option (Nat × Fault) := none

/-- Takes in the result of a batch. -/
def Progress.absorb (p : Progress) : Slot × BatchResult → Progress
  | (slot, .done output tally) => { p with slots := p.slots.put slot output, tally := p.tally + tally }
  | (_, .failed position e) =>
    if p.failure.all (position < ·.1) then { p with failure := some (position, e) } else p
  | (_, .abandoned) => p

namespace Stage

/-- Puts the results of all batches together, in the order in which they are joined; partitions without rows are left
out. -/
def assemble (s : Stage) (index : Nat) (cancelled : Bool) (slots : Slots) (joined : List (Slot × BatchResult)) :
    Except Failure (List Partition × Tally) :=
  let progress := joined.foldl Progress.absorb { slots }
  match progress.failure with
  | some (position, e) => .error (.stage s.name index position e)
  | none =>
    if cancelled then .error (.worker (.cancelled s.name))
    else
      match progress.slots.collect? with
      | some partitions => .ok (partitions.filter (!·.isEmpty), progress.tally)
      | none => .error (.worker (.missingBatch s.name))

/-- Works on several partitions in batches of `size` rows. -/
def work (s : Stage) (size : Nat) (cancelled : Bool) (index : Nat) (shares : List Share) :
    Except Failure (List Partition × Tally) :=
  let (signals, results) := s.runPlan { cancelled } (plan size 0 0 shares)
  s.assemble index signals.cancelled (.empty size shares) results

end Stage

/-! ### Rows without repetition -/

/-- The rows that do not occur in `seen` or before, and all rows seen then. -/
def firstOccurrences (seen : List Row) : List Row → List Row × List Row
  | [] => ([], seen)
  | row :: rest =>
    if row ∈ seen then firstOccurrences seen rest
    else
      let (kept, seen) := firstOccurrences (row :: seen) rest
      (row :: kept, seen)

/-- Keeps the first occurrence of every row in all partitions; partitions without rows are left out. -/
def uniqueRows (seen : List Row) : List Partition → List Partition × Tally
  | [] => ([], {})
  | rows :: rest =>
    let (kept, seen) := firstOccurrences seen rows
    let (others, tally) := uniqueRows seen rest
    (if kept.isEmpty then others else kept :: others,
     { rowsIn := rows.length, rowsOut := kept.length } + tally)

/-! ### Pipelines -/

/-- Runs the stage that comes after `index` others over all partitions, with the fast paths in the memo. -/
def Stage.run (s : Stage) (settings : Settings) (cancelled : Bool) (index : Nat) (memo : FastPath.Memo)
    (partitions : List Partition) : Except Failure (List Partition × Tally) × FastPath.Memo :=
  match s.action with
  | .unique => (.ok (uniqueRows [] partitions), memo)
  | _ =>
    let (shares, memo) := s.equip settings memo partitions
    (s.work settings.batchSize cancelled index shares, memo)

/-- Runs stages one after the other, the first of which comes after `index` others. -/
def runFrom (settings : Settings) (cancelled : Bool) (index : Nat) (memo : FastPath.Memo) (partitions : List Partition) :
    List Stage → Except Failure (List Partition × Report)
  | [] => .ok (partitions, {})
  | s :: rest => do
    let (result, memo) := s.run settings cancelled index memo partitions
    let (partitions, tally) ← result
    let (partitions, report) ← runFrom settings cancelled (index + 1) memo partitions rest
    return (partitions, ⟨(s.name, tally) :: report.stages⟩)

/-- Runs a pipeline over partitions.  The fast paths that are made on the way are remembered until it ends. -/
def runPipeline (settings : Settings) (cancelled : Bool) (stages : List Stage) (partitions : List Partition) :
    Except Failure (List Partition × Report) :=
  runFrom settings cancelled 0 {} partitions stages

end Millrace
