import Millrace.Failure
import Millrace.Inference

/-!
# Settings

How a pipeline is run: how its rows are cut into partitions and batches, how schemas are guessed, and whether fast
paths are used.  `Settings.check` refuses settings with which nothing could run.
-/

namespace Millrace

structure Settings where
  /-- How many batches are worked on at a time; no result depends on it. -/
  workers : Nat
  /-- The greatest number of rows in a partition. -/
  partitionSize : Nat
  /-- The greatest number of rows in a batch. -/
  batchSize : Nat
  inference : Inference
  /-- Whether lambdas are compiled for the schemas of partitions. -/
  fastPath : Bool

namespace Settings

/-- The settings that hold where nothing else is said. -/
def standard (workers : Nat) : Settings where
  workers
  partitionSize := 4096
  batchSize := 256
  inference := ⟨100, 1⟩
  fastPath := true

/-- The settings that count something, with their numbers. -/
def counts (s : Settings) : List (Setting × Nat) :=
  [(.workers, s.workers), (.partitionSize, s.partitionSize), (.batchSize, s.batchSize),
   (.sampleSize, s.inference.sampleSize)]

/-- The counts have to be positive, and the threshold a share of the sample above zero. -/
def check (s : Settings) : Except Failure Unit :=
  match s.counts.find? (·.2 == 0) with
  | some (setting, _) => .error (.config (.notPositive setting))
  | none =>
    let t := s.inference.threshold
    if 0 < t && t ≤ 1 then .ok () else .error (.config (.threshold t))

end Settings
end Millrace
