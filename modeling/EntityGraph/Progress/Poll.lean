import EntityGraph.Progress.Loop
/-! Polling a scripted progress source on a paused clock. Request `k` (from
one) is sent at `(k - 1) · interval`; it takes the `k`-th step of the
script, whose answer arrives after that step's delay, and a request beyond
the script fails at once. The loop sees the ticks and the answers in the
order of their times, and reaching the time limit cuts the run off. When a
tick and an answer come at one moment both are ready and the loop may take
either; the schedule takes the tick first, an assumption of this model. -/

namespace EntityGraph.Progress

/-- A scripted answer: its delay, and the report or none for a failure. -/
structure Reply where
  delay : Nat
  report : Option Report

/-- How a polling run went: the summary when it finished before the time
limit, the statuses shown in order, how often it signalled the end and how
many requests it sent. -/
structure PollOutcome where
  summary : Option PollSummary
  views : List Status
  finished : Nat
  fetches : Nat
  deriving Repr

/-- Why polling could not start. -/
inductive PollFailure where
  /-- The interval between requests is zero. -/
  | zeroPeriod
  deriving DecidableEq, Repr

/-- The message of a polling failure. -/
def PollFailure.message : PollFailure → String
  | .zeroPeriod => "`period` must be non-zero."

/-- An event at a moment of the clock. -/
structure Timed where
  time : Nat
  event : PollEvent

/-- Ticks go before answers that come at the same moment: the tie-break
this model assumes of a loop that may take either. -/
def Timed.rank (t : Timed) : Nat :=
  match t.event with
  | .tick => 0
  | _ => 1

/-- Whether `a` is seen no later than `b`. -/
def Timed.before (a b : Timed) : Bool :=
  a.time < b.time || (a.time == b.time && a.rank ≤ b.rank)

/-- The number of requests sent before the time limit: one at each multiple
of the interval below it. -/
def fetchCount (interval limit : Nat) : Nat := (limit + interval - 1) / interval

/-- The ticks of the clock before the time limit. -/
def ticks (interval limit : Nat) : List Timed :=
  (List.range (fetchCount interval limit)).map fun i => ⟨i * interval, .tick⟩

/-- The answer to request `i + 1`, sent at `i · interval`: the scripted
reply after its delay, or a failure at once when the script is used up. -/
def answer (interval : Nat) (script : List Reply) (i : Nat) : Timed :=
  match script[i]? with
  | some r => ⟨i * interval + r.delay, .complete (i + 1) r.report⟩
  | none => ⟨i * interval, .complete (i + 1) none⟩

/-- The events before the time limit, in the order the loop sees them. -/
def schedule (interval limit : Nat) (script : List Reply) : List Timed :=
  let answers := ((List.range (fetchCount interval limit)).map (answer interval script)).filter
    fun a => a.time < limit
  (ticks interval limit ++ answers).mergeSort Timed.before

/-- Polls with a scripted source. -/
def poll (interval limit : Nat) (script : List Reply) : Except PollFailure PollOutcome :=
  if interval = 0 then .error .zeroPeriod
  else
    let s := PollState.init.run ((schedule interval limit script).map (·.event))
    .ok
      { summary := if s.stopped then some s.summary else none
        views := s.calls.filterMap SinkCall.view?
        finished := s.calls.count .finished
        fetches := s.counter }

end EntityGraph.Progress
