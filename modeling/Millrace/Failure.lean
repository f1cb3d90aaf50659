import Millrace.Fault
import Millrace.Lambda.Error
import Millrace.Number.Shortest

/-!
# Failures

Why a pipeline cannot be set up or does not come to its end.  Unlike a fault, which concerns one row, a failure
ends the whole run.
-/

namespace Millrace

/-- The settings that have to be positive. -/
inductive Setting where
  | workers
  | partitionSize
  | batchSize
  | sampleSize
  deriving DecidableEq

def Setting.name : Setting → String
  | workers => "executor.workers"
  | partitionSize => "executor.partition_size"
  | batchSize => "executor.batch_size"
  | sampleSize => "inference.sample_size"

/-- The operations on datasets that can be refused. -/
inductive Operation where
  | mapColumn
  | withColumn
  | selectColumns
  | renameColumn
  | resolve
  | ignore
  deriving DecidableEq

def Operation.name : Operation → String
  | mapColumn => "map_column"
  | withColumn => "with_column"
  | selectColumns => "select_columns"
  | renameColumn => "rename_column"
  | resolve => "resolve"
  | ignore => "ignore"

/-- What is wrong with a job or with the way in which a pipeline is put together. -/
inductive ConfigCause where
  | notPositive (setting : Setting)
  | threshold (given : Float)
  | duplicateColumn (name : String)
  | noColumnNames (op : Operation)
  | unknownColumn (op : Operation) (name : String)
  /-- The lambda for a single column has to have one parameter. -/
  | parameterCount (column : String) (arity : Nat)
  | columnExists (name : String)
  | fatalKind (op : Operation) (kind : FaultKind)
  | noFunction (op : Operation)
  | unknownFormat (extension : String)
  | missingFile
  /-- The text of a job does not make up a job. -/
  | malformed
  /-- A failure reported from outside. -/
  | reported (text : String)
  deriving DecidableEq

def ConfigCause.message : ConfigCause → String
  | notPositive setting => setting.name ++ " must be positive"
  | threshold given => "inference.normal_case_threshold must be in (0, 1], got " ++ plainText given
  | duplicateColumn name => "duplicate column '" ++ name ++ "'"
  | noColumnNames op => op.name ++ ": dataset has no column names"
  | unknownColumn op name => op.name ++ ": unknown column '" ++ name ++ "'"
  | parameterCount column arity =>
    "map_column '" ++ column ++ "': function takes " ++ Digits.text arity ++ " parameters, expected 1"
  | columnExists name => "rename_column: column '" ++ name ++ "' already exists"
  | fatalKind op kind => op.name ++ ": " ++ kind.name ++ " errors can not be handled"
  | noFunction op => op.name ++ ": previous stage has no function"
  | unknownFormat extension => "no parser for extension '" ++ extension ++ "'"
  | missingFile => "No such file or directory (os error 2)"
  | malformed => "malformed job"
  | reported text => text

/-- Why the batches of a stage give no result. -/
inductive WorkerCause where
  | cancelled (stage : String)
  | missingBatch (stage : String)
  | reported (text : String)
  deriving DecidableEq

def WorkerCause.message : WorkerCause → String
  | cancelled stage => "stage '" ++ stage ++ "': execution cancelled"
  | missingBatch stage => "stage '" ++ stage ++ "': batch result missing"
  | reported text => text

/-- The failure of a whole run. -/
inductive Failure where
  | config (cause : ConfigCause) (contexts : List String := [])
  | lambda (e : LambdaError)
  /-- A row failed in a stage and no handler took it. -/
  | stage (name : String) (index row : Nat) (fault : Fault)
  | worker (cause : WorkerCause) (contexts : List String := [])
  | io (text : String)
  deriving DecidableEq

namespace Failure

/-- The text of a failure. -/
def text : Failure → String
  | config cause contexts => "config error: " ++ inContexts contexts cause.message
  | lambda e => "udf error: " ++ e.message
  | stage name index row fault =>
    "stage " ++ Digits.text index ++ " '" ++ name ++ "' failed at row " ++ Digits.text row ++ ": " ++ fault.text
  | worker cause contexts => "worker error: " ++ inContexts contexts cause.message
  | io text => "io error: " ++ text

/-- The failure with a further context.  The context of a failed stage goes to the fault of its row. -/
def within (context : String) : Failure → Failure
  | config cause contexts => config cause (contexts ++ [context])
  | stage name index row fault => stage name index row (fault.within context)
  | worker cause contexts => worker cause (contexts ++ [context])
  | f => f

/-- The fault of the row on which a stage failed. -/
def fault? : Failure → Option Fault
  | stage _ _ _ fault => some fault
  | _ => none

end Failure
end Millrace
