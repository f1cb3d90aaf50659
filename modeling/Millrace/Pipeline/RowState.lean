import Millrace.FastPath.Compiled
import Millrace.Lambda.Eval
import Millrace.Pipeline.Stage
import Millrace.Pipeline.Tally

/-!
# A row in a stage

What a stage with a lambda does to one row.  The row first takes the fast path, if there is one; when that gives up
or is missing, the lambda is evaluated; and when that fails, the fault goes to the handlers of the stage
(`handleWith`).  Each handler is used at most once for a row, and a resolver that fails hands its own fault to the
handlers that are left.
-/

namespace Millrace

/-- How far a row has come. -/
inductive RowState where
  | pending
  | fastValue (v : Value)
  /-- The fast path gave up; the lambda is still to be evaluated. -/
  | fastFailed (reason : FastPath.Reason)
  | value (v : Value)
  /-- A handler gave a value. -/
  | resolved (v : Value)
  /-- A handler drops the row. -/
  | dropped
  /-- No handler took the fault, or it was fatal. -/
  | failed (e : Fault)

/-- Whether nothing more is to be done to find the value of a row. -/
def RowState.isFinished : RowState → Bool
  | pending | fastFailed _ => false
  | _ => true

namespace Handler

/-- The first handler for a kind of fault, and the other handlers. -/
def pick? (kind : FaultKind) : List Handler → Option (Handler × List Handler)
  | [] => none
  | h :: rest =>
    if h.kind = kind then some (h, rest)
    else (pick? kind rest).map fun (g, others) => (g, h :: others)

theorem length_of_pick? {kind : FaultKind} {hs others : List Handler} {h : Handler}
    (picked : pick? kind hs = some (h, others)) : others.length < hs.length := by
  induction hs generalizing h others with
  | nil => cases picked
  | cons g rest ih =>
    unfold pick? at picked
    split at picked
    · cases picked
      exact Nat.lt_succ_self _
    · obtain ⟨_, found, same⟩ := Option.map_eq_some_iff.1 picked
      cases same
      exact Nat.succ_lt_succ (ih found)

end Handler

/-- What becomes of a row whose fault `e` is counted already, like all kinds in `counted`. -/
def handleWith (input : Row) (counted : List FaultKind) (e : Fault) (handlers : List Handler) : RowState × Tally :=
  match _picked : Handler.pick? e.kind handlers with
  | none => (.failed e, {})
  | some (.ignore _, _) => (.dropped, { ignored := 1 })
  | some (.resolve _ f, others) =>
    match f.eval input with
    | .ok v => (.resolved v, { resolved := 1 })
    | .error next =>
      if next.isFatal then (.failed (next.within "resolver"), {})
      else
        let (state, tally) := handleWith input (next.kind :: counted) (next.within "resolver") others
        (state, if counted.contains next.kind then tally else { faults := .one next.kind } + tally)
termination_by handlers.length
decreasing_by exact Handler.length_of_pick? _picked

namespace Stage

/-- What becomes of a row that failed with `e`; fatal faults are not counted and not handled. -/
def handle (s : Stage) (input : Row) (e : Fault) : RowState × Tally :=
  if e.isFatal then (.failed e, {})
  else
    let (state, tally) := handleWith input [e.kind] e s.handlers
    (state, { faults := .one e.kind } + tally)

/-- Evaluates the lambda of a stage on what it sees of a row. -/
def evaluate (s : Stage) (f : Lambda) (input : Row) : RowState × Tally :=
  match f.eval input with
  | .ok v => (.value v, {})
  | .error e => s.handle input e

/-- The next state of a row. -/
def advance (s : Stage) (f : Lambda) (compiled : Option FastPath.Compiled) (input : Row) :
    RowState → RowState × Tally
  | .pending =>
    match compiled with
    | none =>
      let (state, tally) := s.evaluate f input
      (state, { generalOnly := 1 } + tally)
    | some c =>
      match c.call input with
      | .ok v => (.fastValue v, { fastPath := 1 })
      | .error reason => (.fastFailed reason, { fallback := 1 })
  | .fastFailed _ => s.evaluate f input
  | finished => (finished, {})

/-- The final state of a row, which two steps lead to.  A row without the column that the lambda sees fails at
once. -/
def finish (s : Stage) (f : Lambda) (compiled : Option FastPath.Compiled) (row : Row) : RowState × Tally :=
  match s.action.input? row with
  | none => s.handle row (FaultCause.columnRead row.length)
  | some input =>
    let (first, tally) := s.advance f compiled input .pending
    let (last, more) := s.advance f compiled input first
    (last, tally + more)

/-- The row that comes out of a stage, if any. -/
def settle (s : Stage) (row : Row) : RowState → RowResult (Option Row)
  | .fastValue v | .value v | .resolved v => s.action.output row v
  | .dropped => .ok none
  | .failed e => .error e
  | .pending | .fastFailed _ => .ok none

/-- The columns of a row in the given positions. -/
def project (row : Row) (columns : List Nat) : RowResult Row :=
  columns.mapM fun c =>
    match row[c]? with
    | some v => .ok v
    | none => fault (.column c row.length)

/-- What a stage makes of a row, and what it counts for it. -/
def process (s : Stage) (compiled : Option FastPath.Compiled) (row : Row) : RowResult (Option Row) × Tally :=
  match s.action, s.action.lambda? with
  | _, some f =>
    let (state, tally) := s.finish f compiled row
    (s.settle row state, tally)
  | .select columns, none => (some <$> project row columns, {})
  | _, none => (.ok (some row), {})

end Stage
end Millrace
