import Millrace.Document.Hcl
import Millrace.Document.Json
import Millrace.Document.Toml
import Millrace.Job.Form

/-!
# Job files

A job is read from a text in one of three formats, and from a file in the format that its extension names.
-/

namespace Millrace

/-- The formats of jobs. -/
inductive JobFormat where
  | toml
  | hcl
  | json
  deriving DecidableEq

namespace JobFormat

def extension : JobFormat → String
  | toml => "toml"
  | hcl => "hcl"
  | json => "json"

/-- A table in place of a list of operations is a single operation. -/
def listLoneStage : String × Document → String × Document
  | ("stage", .table entries) => ("stage", .list [.table entries])
  | entry => entry

/-- The document that a text makes up in a format. -/
def document? : JobFormat → String → Option Document
  | toml, text => Document.Toml.parse? text
  | json, text => Document.Json.parse? text
  | hcl, text =>
    (Document.Hcl.parse? text).map fun
      | .table entries => .table (entries.map listLoneStage)
      | d => d

/-- Whether a list in place of a group of fields may hold more than they are. -/
def allowsSurplus : JobFormat → Bool
  | toml => true
  | hcl | json => false

end JobFormat

/-- The settings in a TOML text, where `s` holds what it does not say; they are checked. -/
def Settings.parse (s : Settings) (text : String) : Except Failure Settings :=
  match (JobFormat.toml.document? text).bind (ofDocument? JobFormat.toml.allowsSurplus s) with
  | none => .error (.config .malformed)
  | some settings => do
    settings.check
    return settings

namespace Job

/-- The job in a text, where `s` holds the settings that it does not give; they are checked. -/
def parse (s : Settings) (format : JobFormat) (text : String) : Except Failure Job :=
  match (format.document? text).bind (Job.ofDocument? format.allowsSurplus s) with
  | none => .error (.config .malformed)
  | some job => do
    job.settings.check
    return job

/-- The part of a path after the last slash. -/
def fileName (path : String) : List Char :=
  let parts := (path.toList.splitOn '/').filter fun part => !part.isEmpty && part ≠ ['.']
  match parts.getLast? with
  | some ['.', '.'] | none => []
  | some name => name

/-- The part of a file name after its last point, unless that is the first character. -/
def extension (path : String) : String :=
  let (after, before) := (fileName path).reverse.span (· ≠ '.')
  if before.length ≤ 1 then "" else String.ofList after.reverse

/-- The job in a file in one of the formats; without a content there is no such file. -/
def load (s : Settings) (formats : List JobFormat) (path : String) (content : Option String) : Except Failure Job :=
  match formats.find? (·.extension == extension path), content with
  | none, _ => .error (.config (.unknownFormat (extension path)) [path])
  | some _, none => .error (.config .missingFile [path])
  | some format, some text =>
    match parse s format text with
    | .ok job => .ok job
    | .error e => .error (e.within path)

end Job
end Millrace
