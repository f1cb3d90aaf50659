import Millrace.Document.JsonText
import Millrace.Pipeline.Tally

/-!
# Reports as documents

The tallies of a run as tables with sorted keys.
-/

namespace Millrace

/-- The numbers of faults by the names of their kinds. -/
def FaultCounts.toDocument (c : FaultCounts) : Document :=
  .table (c.toList.foldl (fun sorted (kind, n) => putSorted kind.name (.int n) sorted) [])

/-- The tally of a stage of the given name. -/
def Tally.toDocument (name : String) (t : Tally) : Document :=
  .table [("exceptions", t.faults.toDocument), ("fallback", .int t.fallback), ("fast_path", .int t.fastPath),
    ("general_only", .int t.generalOnly), ("ignored", .int t.ignored), ("name", .str name),
    ("resolved", .int t.resolved), ("rows_in", .int t.rowsIn), ("rows_out", .int t.rowsOut)]

def Report.toDocument (r : Report) : Document :=
  .table [("stages", .list (r.stages.map fun (name, tally) => tally.toDocument name))]

end Millrace
