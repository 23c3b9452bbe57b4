import EntityGraph.Progress.Report
/-! The polling loop as a state machine. Each round reacts to one event:
the clock ticks and a request goes out under the next number, or a request
in flight finishes, with a report, with a failed fetch, or with a crash of
its task. Requests overlap and finish in any order. Only an answer to the
latest request is applied; older ones are discarded. A report that says
loading is done is shown, signalled and ends the loop. -/

namespace EntityGraph.Progress

/-- Counts of a polling run. -/
structure PollSummary where
  issued : Nat
  applied : Nat
  discarded : Nat
  failed : Nat
  deriving DecidableEq, Repr

/-- What the loop tells the indicator: a status to show, or that loading
has finished. -/
inductive SinkCall where
  | update (view : Status)
  | finished
  deriving DecidableEq, Repr

/-- The status a sink call shows, if it shows one. -/
def SinkCall.view? : SinkCall → Option Status
  | .update v => some v
  | .finished => none

/-- What the loop reacts to. -/
inductive PollEvent where
  /-- The clock ticks: the next request is sent. -/
  | tick
  /-- A request finishes: its fetch returned a report, or failed (`none`). -/
  | complete (request : Nat) (result : Option Report)
  /-- The task of a request crashed before it could answer. -/
  | crash (request : Nat)

/-- The state of the loop. -/
structure PollState where
  /-- The number of the latest request sent, `0` before the first. -/
  counter : Nat
  /-- The requests sent and not finished yet. -/
  inFlight : List Nat
  summary : PollSummary
  /-- The calls made on the sink, in order. -/
  calls : List SinkCall
  /-- The loop has returned. -/
  stopped : Bool

namespace PollState

/-- The state before the first round. -/
def init : PollState := ⟨0, [], ⟨0, 0, 0, 0⟩, [], false⟩

/-- Applies a report that answers the latest request: a finished load is
shown and signalled and ends the loop, any other status is shown unless
there is nothing new. -/
def applyReport (s : PollState) (r : Report) : PollState :=
  let s := { s with summary := { s.summary with applied := s.summary.applied + 1 } }
  if r.status = .finished then
    { s with calls := s.calls ++ [.update .finished, .finished], stopped := true }
  else if r.status = .unchanged then s
  else { s with calls := s.calls ++ [.update r.status] }

/-- What becomes of a request in flight that finishes: discarded when a
newer request was sent, counted as failed when its fetch failed, and
applied otherwise. -/
def finish (s : PollState) (request : Nat) (result : Option Report) : PollState :=
  let s := { s with inFlight := s.inFlight.erase request }
  if request ≠ s.counter then
    { s with summary := { s.summary with discarded := s.summary.discarded + 1 } }
  else
    match result with
    | none => { s with summary := { s.summary with failed := s.summary.failed + 1 } }
    | some r => s.applyReport r

/-- One round of the loop. Once it has returned nothing happens, and only a
request in flight can finish. -/
def step (s : PollState) (e : PollEvent) : PollState :=
  if s.stopped then s
  else
    match e with
    | .tick =>
      { s with
        counter := s.counter + 1
        inFlight := s.inFlight ++ [s.counter + 1]
        summary := { s.summary with issued := s.summary.issued + 1 } }
    | .complete request result => if request ∈ s.inFlight then s.finish request result else s
    | .crash request =>
      if request ∈ s.inFlight then
        { s with
          inFlight := s.inFlight.erase request
          summary := { s.summary with failed := s.summary.failed + 1 } }
      else s

/-- The state after a sequence of events. -/
def run (s : PollState) (es : List PollEvent) : PollState := es.foldl step s

end PollState

end EntityGraph.Progress
