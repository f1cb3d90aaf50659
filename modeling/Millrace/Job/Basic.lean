import Millrace.Dataset.Basic

/-!
# Jobs

A job is a whole pipeline with its settings and its source rows.  Building it (`Job.build`) does the operations on
the source one after the other.
-/

namespace Millrace

/-- One operation of a job; lambdas are given by their texts. -/
inductive JobStep where
  | map (f : String)
  | filter (f : String)
  | mapColumn (column f : String)
  | withColumn (column f : String)
  | selectColumns (columns : List String)
  | renameColumn (source target : String)
  | unique
  | resolve (kind : FaultKind) (f : String)
  | ignore (kind : FaultKind)
  deriving DecidableEq

structure Job where
  settings : Settings
  rows : List Value
  columns : Option (List String)
  steps : List JobStep

/-- Does one operation of a job on a dataset. -/
def JobStep.apply (d : Dataset) (registry : Registry) : JobStep → Except Failure (Dataset × Registry)
  | map f => d.map (registry.parse f)
  | filter f => d.filter (registry.parse f)
  | mapColumn column f => d.mapColumn column (registry.parse f)
  | withColumn column f => d.withColumn column (registry.parse f)
  | selectColumns columns => (·, registry) <$> d.selectColumns columns
  | renameColumn source target => (·, registry) <$> d.renameColumn source target
  | unique => .ok (d.unique, registry)
  | resolve kind f => d.resolve kind (registry.parse f)
  | ignore kind => (·, registry) <$> d.ignore kind

/-- Does operations one after the other, the first of which comes after `index` others. -/
def buildFrom (index : Nat) (d : Dataset) (registry : Registry) : List JobStep → Except Failure Dataset
  | [] => .ok d
  | step :: rest =>
    match step.apply d registry with
    | .ok (d, registry) => buildFrom (index + 1) d registry rest
    | .error e => .error (e.within ("stage " ++ Digits.text index))

/-- The dataset of a job. -/
def Job.build (job : Job) : Except Failure Dataset := do
  let source ← match job.columns with
    | some columns => Dataset.ofColumns job.rows columns
    | none => pure (Dataset.ofValues job.rows)
  buildFrom 0 source {} job.steps

end Millrace
