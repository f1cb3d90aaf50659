import Millrace.Command

/-!
# The program

Reads the job file and prints what the command answers.
-/

namespace Millrace

/-- How many workers there are where a job does not say. -/
def defaultWorkers : Nat := 4

/-- The content of a file, if it can be read. -/
def readFile? (path : String) : IO (Option String) := do
  try
    return some (← IO.FS.readFile path)
  catch _ =>
    return none

/-- The answer to the arguments of the program. -/
def respond (args : List String) : IO CommandOutput := do
  match args with
  | "run" :: rest =>
    match RunArguments.parse? rest with
    | some args => return runCommand (.standard defaultWorkers) args (← readFile? (args.job.getD ""))
    | none => return usage
  | _ => return usage

end Millrace

def main (args : List String) : IO UInt32 := do
  let output ← Millrace.respond args
  (← IO.getStdout).putStr output.stdout
  (← IO.getStderr).putStr output.stderr
  return output.code.toUInt32
