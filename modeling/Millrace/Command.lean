import Millrace.Dataset.Table
import Millrace.Document.ReportForm
import Millrace.Job.File

/-!
# The command line

`run --job FILE` runs the job in a file and prints what comes out, as a table or as JSON, with a limit on the rows.
What the command prints, and the code it ends with, is a function of its arguments and the content of the file.
-/

namespace Millrace

/-- What a job's result is printed as. -/
inductive OutputFormat where
  | text
  | json
  deriving DecidableEq

def OutputFormat.ofName? : String → Option OutputFormat
  | "text" => some text
  | "json" => some json
  | _ => none

/-- The greatest number of rows that can be asked for. -/
def maxLimit : Nat := 18446744073709551615

/-- The arguments of the command, as far as they are given. -/
structure RunArguments where
  job : Option String := none
  format : Option OutputFormat := none
  limit : Option Nat := none

namespace RunArguments

/-- The number of rows in an argument. -/
def limit? (s : String) : Option Nat :=
  let ds := match s.toList with
    | '+' :: rest => rest
    | ds => ds
  if ds.isEmpty || !ds.all Char.isDigit || maxLimit < Digits.value ds then none else some (Digits.value ds)

/-- Takes in the value of an option; each option may be given once. -/
def set (args : RunArguments) (option value : String) : Option RunArguments :=
  match option with
  | "--job" => if args.job.isSome then none else some { args with job := some value }
  | "--format" =>
    if args.format.isSome then none
    else (OutputFormat.ofName? value).map fun format => { args with format := some format }
  | "--limit" =>
    if args.limit.isSome then none else (limit? value).map fun limit => { args with limit := some limit }
  | _ => none

/-- Takes in arguments: options with their values, joined by an equals sign or one after the other.  A value of its
own does not start with a dash, unless it is one. -/
def add (args : RunArguments) : List String → Option RunArguments
  | [] | ["--"] => some args
  | first :: rest =>
    match first.toList.span (· ≠ '='), rest with
    | (option, '=' :: value), rest => (args.set (String.ofList option) (String.ofList value)).bind (·.add rest)
    | (_, _), value :: rest =>
      if value.startsWith "-" && value ≠ "-" then none else (args.set first value).bind (·.add rest)
    | (_, _), [] => none

/-- The arguments of the command, among which the job has to be. -/
def parse? (args : List String) : Option RunArguments := (add {} args).filter (·.job.isSome)

end RunArguments

/-- What a command prints on its two outputs, and the code it ends with. -/
structure CommandOutput where
  code : Nat
  stdout : String := ""
  stderr : String := ""

/-- A line for every kind of fault in every stage. -/
def Report.faultLines (r : Report) : String :=
  String.join (r.faults.flatMap fun (name, counts) => counts.toList.map fun (kind, n) =>
    name ++ ": " ++ Digits.text n ++ " " ++ kind.name ++ " exception(s)\n")

/-- What is printed for a dataset. -/
def Dataset.print (d : Dataset) (session : Session) (format : OutputFormat) (limit : Nat) : Except Failure String :=
  match format with
  | .text => do
    let (table, d) ← d.table session limit
    return table ++ (d.report.elim "" Report.faultLines)
  | .json => do
    let (values, d) ← d.take session limit
    let columns := d.columns.elim Document.null fun names => .list (names.map .str)
    let report := d.report.elim Document.null Report.toDocument
    let result := Document.table
      [("columns", columns), ("rows", .list (values.map Value.toDocument)), ("stats", report)]
    return result.pretty ++ "\n"

/-- Runs the job in a file of that content, where `s` holds the settings that it does not give. -/
def runJob (s : Settings) (args : RunArguments) (content : Option String) : Except Failure String := do
  let job ← Job.load s [.toml, .hcl] (args.job.getD "") content
  let session ← Session.new job.settings
  let d ← job.build
  d.print session (args.format.getD .text) (args.limit.getD maxLimit)

/-- Runs the command with the content of the file that its arguments name. -/
def runCommand (s : Settings) (args : RunArguments) (content : Option String) : CommandOutput :=
  match runJob s args content with
  | .ok stdout => { code := 0, stdout }
  | .error e => { code := 1, stderr := "Error: " ++ e.text ++ "\n" }

/-- What is printed for arguments that cannot be understood. -/
def usage : CommandOutput :=
  { code := 2, stderr := "usage: millrace run --job FILE [--format text|json] [--limit N]\n" }

end Millrace
