import EntityGraph.Text.Html
/-! Loading progress as a server reports it, and what a loading indicator
shows for a report: a finished load, a stage with a count of work items,
a stage alone, or nothing new. -/

namespace EntityGraph.Progress

/-- A progress report; every field defaults to false, empty or zero. -/
structure Report where
  done : Bool := false
  stage : String := ""
  current : UInt64 := 0
  total : UInt64 := 0
  deriving DecidableEq, Repr

/-- What the indicator shows. -/
inductive Status where
  | finished
  | counted (stage : String) (current total : UInt64)
  | stage (name : String)
  | unchanged
  deriving DecidableEq, Repr

/-- The status a report calls for: finished when done, else counted when the
total is known, else the stage when it has a name, else nothing new. -/
def Report.status (r : Report) : Status :=
  if r.done then .finished
  else if r.total != 0 then .counted r.stage r.current r.total
  else if !r.stage.isEmpty then .stage r.stage
  else .unchanged

/-- The markup of a status, or none when the indicator keeps what it shows.
A count is `current/total`, or one number when the two are equal. -/
def Status.html? : Status → Option String
  | .finished => some "Finished, reloading page ..."
  | .counted name current total =>
    let count := if current == total then toString current.toNat
      else toString current.toNat ++ "/" ++ toString total.toNat
    some ("<code>" ++ Text.escapeHtml name ++ "</code> (<code>" ++ count ++ "</code>)")
  | .stage name => some ("<code>" ++ Text.escapeHtml name ++ "</code>")
  | .unchanged => none

end EntityGraph.Progress
