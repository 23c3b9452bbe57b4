import Mathlib
import EntityGraph.Progress.Loop

/-! # The polling loop

The loop reacts to ticks and to finished requests in any order. What one
round can do is said once, per kind of event (`step_tick`, `step_complete`,
`step_crash`, and `finish_summary` for the verdict on an answer); every
property of whole runs is an induction over the events from these.

Two results are proved about every run. `loop_counters`: the summary counts
every request sent, and each one is applied, discarded, failed or still in
flight. `loop_applies_latest`: an answer is applied only when it answers the
latest request, so the applied requests have increasing numbers; the sink is
shown exactly the statuses of the applied answers, and a finished load is
signalled once, as the last call, after which the loop does nothing.
-/

namespace EntityGraph.Progress

theorem Report.status_eq_finished (r : Report) : r.status = .finished ↔ r.done = true := by
  unfold Report.status
  split
  · simp_all
  · split <;> [simp_all; split <;> simp_all]

namespace PollState

variable {s : PollState} {e : PollEvent} {k : Nat} {res : Option Report} {r : Report}

/-! ## One round -/

@[simp] theorem step_of_stopped (h : s.stopped = true) (e : PollEvent) : s.step e = s := by
  simp [step, h]

theorem step_tick (h : s.stopped = false) :
    s.step .tick =
      { s with
        counter := s.counter + 1
        inFlight := s.inFlight ++ [s.counter + 1]
        summary := { s.summary with issued := s.summary.issued + 1 } } := by
  simp [step, h]

theorem step_complete (h : s.stopped = false) :
    s.step (.complete k res) = if k ∈ s.inFlight then s.finish k res else s := by
  simp [step, h]

theorem step_crash (h : s.stopped = false) :
    s.step (.crash k) =
      if k ∈ s.inFlight then
        { s with
          inFlight := s.inFlight.erase k
          summary := { s.summary with failed := s.summary.failed + 1 } }
      else s := by
  simp [step, h]

@[simp] theorem run_nil (s : PollState) : s.run [] = s := rfl

@[simp] theorem run_cons (s : PollState) (e : PollEvent) (es : List PollEvent) :
    s.run (e :: es) = (s.step e).run es := rfl

theorem run_append (s : PollState) (es es' : List PollEvent) :
    s.run (es ++ es') = (s.run es).run es' := by
  simp [run, List.foldl_append]

/-- A loop that has returned stays as it is. -/
theorem run_of_stopped (h : s.stopped = true) (es : List PollEvent) : s.run es = s := by
  induction es with
  | nil => rfl
  | cons e es ih => rw [run_cons, step_of_stopped h, ih]

/-! ## Applying a report -/

/-- The calls a status makes on the sink when a report with it is applied. -/
def sinkCallsOf : Status → List SinkCall
  | .finished => [.update .finished, .finished]
  | .unchanged => []
  | v => [.update v]

@[simp] theorem applyReport_counter : (s.applyReport r).counter = s.counter := by
  unfold applyReport; split <;> [rfl; split <;> rfl]

@[simp] theorem applyReport_inFlight : (s.applyReport r).inFlight = s.inFlight := by
  unfold applyReport; split <;> [rfl; split <;> rfl]

@[simp] theorem applyReport_summary :
    (s.applyReport r).summary = { s.summary with applied := s.summary.applied + 1 } := by
  unfold applyReport; split <;> [rfl; split <;> rfl]

@[simp] theorem applyReport_calls : (s.applyReport r).calls = s.calls ++ sinkCallsOf r.status := by
  unfold applyReport
  split
  · rename_i hf
    simp [hf, sinkCallsOf]
  · split
    · rename_i hu
      simp [hu, sinkCallsOf]
    · rename_i hf hu
      cases hv : r.status <;> simp_all [sinkCallsOf]

@[simp] theorem applyReport_stopped :
    (s.applyReport r).stopped = (s.stopped || r.done) := by
  unfold applyReport
  split
  · rename_i hf
    simp [(Report.status_eq_finished r).mp hf]
  · rename_i hf
    rw [Report.status_eq_finished, Bool.not_eq_true] at hf
    split <;> simp [hf]

/-! ## The verdict on a finished request -/

theorem finish_stale (h : k ≠ s.counter) :
    s.finish k res =
      { s with
        inFlight := s.inFlight.erase k
        summary := { s.summary with discarded := s.summary.discarded + 1 } } := by
  simp [finish, h]

theorem finish_failed (h : k = s.counter) :
    s.finish k none =
      { s with
        inFlight := s.inFlight.erase k
        summary := { s.summary with failed := s.summary.failed + 1 } } := by
  simp [finish, h]

theorem finish_applied (h : k = s.counter) :
    s.finish k (some r) = { s with inFlight := s.inFlight.erase k }.applyReport r := by
  simp [finish, h]

@[simp] theorem finish_counter : (s.finish k res).counter = s.counter := by
  by_cases h : k = s.counter
  · cases res <;> simp [finish_failed, finish_applied, h]
  · simp [finish_stale h]

@[simp] theorem finish_inFlight : (s.finish k res).inFlight = s.inFlight.erase k := by
  by_cases h : k = s.counter
  · cases res <;> simp [finish_failed, finish_applied, h]
  · simp [finish_stale h]

/-- An answer to an older request is discarded, whether its fetch succeeded
or not; an answer to the latest one is a failure or applied. -/
theorem finish_summary :
    (s.finish k res).summary =
      if k ≠ s.counter then { s.summary with discarded := s.summary.discarded + 1 }
      else if res.isNone then { s.summary with failed := s.summary.failed + 1 }
      else { s.summary with applied := s.summary.applied + 1 } := by
  by_cases h : k = s.counter
  · cases res <;> simp [finish_failed, finish_applied, h]
  · simp [finish_stale h, h]

/-- The latest number never goes down. -/
theorem counter_le_step (s : PollState) (e : PollEvent) : s.counter ≤ (s.step e).counter := by
  cases hs : s.stopped
  case true => simp [hs]
  case false =>
  cases e with
  | tick => simp [step_tick hs]
  | complete k res =>
    rw [step_complete hs]
    split
    · rw [finish_counter]
    · exact le_refl _
  | crash k =>
    rw [step_crash hs]
    split <;> exact le_refl _

/-- While the latest number stays, requests only leave the flight. -/
theorem inFlight_step_subset (h : (s.step e).counter = s.counter) :
    (s.step e).inFlight ⊆ s.inFlight := by
  cases hs : s.stopped
  case true => simp [hs]
  case false =>
  cases e with
  | tick => simp [step_tick hs] at h
  | complete k res =>
    rw [step_complete hs]
    split
    · rw [finish_inFlight]
      exact List.erase_subset
    · exact fun _ hj => hj
  | crash k =>
    rw [step_crash hs]
    split
    · exact List.erase_subset
    · exact fun _ hj => hj

/-! ## Counting the requests -/

/-- The states the loop reaches from its start, one event at a time. -/
inductive Reachable : PollState → Prop
  | init : Reachable init
  | step {s : PollState} (e : PollEvent) : Reachable s → Reachable (s.step e)

theorem Reachable.run (h : s.Reachable) (es : List PollEvent) : (s.run es).Reachable := by
  induction es generalizing s with
  | nil => exact h
  | cons e es ih => exact ih (h.step e)

/-- What holds in every state the loop reaches: the summary counts the
requests sent, and each of them is applied, discarded, failed or still in
flight; the requests in flight are distinct and numbered from one up to the
latest. -/
structure Consistent (s : PollState) : Prop where
  issued : s.summary.issued = s.counter
  balance : s.summary.applied + s.summary.discarded + s.summary.failed + s.inFlight.length =
    s.summary.issued
  nodup : s.inFlight.Nodup
  bounded : ∀ k ∈ s.inFlight, 0 < k ∧ k ≤ s.counter

theorem init_consistent : init.Consistent :=
  ⟨rfl, rfl, List.nodup_nil, by simp [init]⟩

/-- Finishing a request in flight keeps the state consistent when it is
counted once: as applied, discarded or failed. -/
theorem Consistent.finishing (h : s.Consistent) (hk : k ∈ s.inFlight) {s' : PollState}
    (hc : s'.counter = s.counter) (hf : s'.inFlight = s.inFlight.erase k)
    (hi : s'.summary.issued = s.summary.issued)
    (hs : s'.summary.applied + s'.summary.discarded + s'.summary.failed =
      s.summary.applied + s.summary.discarded + s.summary.failed + 1) : s'.Consistent := by
  have hlen : s'.inFlight.length + 1 = s.inFlight.length := by
    rw [hf, List.length_erase_of_mem hk]
    have := List.length_pos_of_mem hk
    omega
  refine ⟨by rw [hi, hc, h.issued], by have := h.balance; omega, hf ▸ h.nodup.erase k, ?_⟩
  intro j hj
  rw [hc]
  exact h.bounded j (List.mem_of_mem_erase (hf ▸ hj))

theorem Consistent.step (h : s.Consistent) (e : PollEvent) : (s.step e).Consistent := by
  cases hs : s.stopped
  case true => rwa [step_of_stopped hs]
  case false =>
  cases e with
  | tick =>
    rw [step_tick hs]
    -- the new number is above every number in flight
    have hnew : s.counter + 1 ∉ s.inFlight := fun hm => by
      have := (h.bounded _ hm).2
      omega
    refine ⟨by simp [h.issued], by simp; have := h.balance; omega,
      h.nodup.append (List.nodup_singleton _) (by simpa using hnew), ?_⟩
    intro j hj
    dsimp only
    rcases List.mem_append.mp hj with hj | hj
    · have := h.bounded j hj
      exact ⟨this.1, by omega⟩
    · simp only [List.mem_singleton] at hj
      exact ⟨by omega, by omega⟩
  | complete k res =>
    rw [step_complete hs]
    split
    case isTrue hk =>
      refine h.finishing hk finish_counter finish_inFlight ?_ ?_ <;>
        (rw [finish_summary]; split_ifs <;> simp <;> omega)
    case isFalse => exact h
  | crash k =>
    rw [step_crash hs]
    split
    case isTrue hk => exact h.finishing hk rfl rfl rfl (by simp; omega)
    case isFalse => exact h

theorem Reachable.consistent (h : s.Reachable) : s.Consistent := by
  induction h with
  | init => exact init_consistent
  | step e _ ih => exact ih.step e

/-- In every state the loop reaches, the summary has issued one request per
number up to the latest, and every request sent is applied, discarded,
failed or still in flight. A finished request is counted exactly once: as
discarded when a newer one was sent, whether its fetch succeeded or not, as
failed when it is the latest and its fetch failed, and as applied when it is
the latest and its fetch succeeded; a crashed task counts as failed. So the
requests neither applied, discarded nor failed are those left in flight. -/
theorem loop_counters (h : s.Reachable) :
    s.summary.issued = s.counter ∧
    s.summary.applied + s.summary.discarded + s.summary.failed + s.inFlight.length =
      s.summary.issued ∧
    (∀ k res, s.stopped = false → k ∈ s.inFlight →
      (s.step (.complete k res)).summary =
        if k ≠ s.counter then { s.summary with discarded := s.summary.discarded + 1 }
        else if res.isNone then { s.summary with failed := s.summary.failed + 1 }
        else { s.summary with applied := s.summary.applied + 1 }) ∧
    (∀ k, s.stopped = false → k ∈ s.inFlight →
      (s.step (.crash k)).summary = { s.summary with failed := s.summary.failed + 1 }) ∧
    s.summary.issued - s.summary.applied - s.summary.discarded - s.summary.failed =
      s.inFlight.length := by
  have hc := h.consistent
  refine ⟨hc.issued, hc.balance, fun k res hs hk => ?_, fun k hs hk => ?_, ?_⟩
  · rw [step_complete hs, if_pos hk, finish_summary]
  · rw [step_crash hs, if_pos hk]
  · have := hc.balance
    omega

/-- Two requests sent, and the older one failed after the newer one went
out. -/
theorem loop_counters_stale_failure :
    (init.run [.tick, .tick, .complete 1 none]).Reachable ∧
    (init.run [.tick, .tick, .complete 1 none]).summary.issued =
      (init.run [.tick, .tick, .complete 1 none]).counter ∧
    (init.run [.tick, .tick, .complete 1 none]).summary.applied +
        (init.run [.tick, .tick, .complete 1 none]).summary.discarded +
        (init.run [.tick, .tick, .complete 1 none]).summary.failed +
        (init.run [.tick, .tick, .complete 1 none]).inFlight.length =
      (init.run [.tick, .tick, .complete 1 none]).summary.issued ∧
    (∀ k res, (init.run [.tick, .tick, .complete 1 none]).stopped = false →
      k ∈ (init.run [.tick, .tick, .complete 1 none]).inFlight →
      ((init.run [.tick, .tick, .complete 1 none]).step (.complete k res)).summary =
        if k ≠ (init.run [.tick, .tick, .complete 1 none]).counter then
          { (init.run [.tick, .tick, .complete 1 none]).summary with
            discarded := (init.run [.tick, .tick, .complete 1 none]).summary.discarded + 1 }
        else if res.isNone then
          { (init.run [.tick, .tick, .complete 1 none]).summary with
            failed := (init.run [.tick, .tick, .complete 1 none]).summary.failed + 1 }
        else
          { (init.run [.tick, .tick, .complete 1 none]).summary with
            applied := (init.run [.tick, .tick, .complete 1 none]).summary.applied + 1 }) ∧
    (∀ k, (init.run [.tick, .tick, .complete 1 none]).stopped = false →
      k ∈ (init.run [.tick, .tick, .complete 1 none]).inFlight →
      ((init.run [.tick, .tick, .complete 1 none]).step (.crash k)).summary =
        { (init.run [.tick, .tick, .complete 1 none]).summary with
          failed := (init.run [.tick, .tick, .complete 1 none]).summary.failed + 1 }) ∧
    (init.run [.tick, .tick, .complete 1 none]).summary.issued -
        (init.run [.tick, .tick, .complete 1 none]).summary.applied -
        (init.run [.tick, .tick, .complete 1 none]).summary.discarded -
        (init.run [.tick, .tick, .complete 1 none]).summary.failed =
      (init.run [.tick, .tick, .complete 1 none]).inFlight.length :=
  ⟨Reachable.init.run _, loop_counters (Reachable.init.run _)⟩

/-! ## The answers applied -/

/-- The answer a round applies, with the number of the request it answers:
a report that the loop counts as applied. -/
def appliedBy (s : PollState) : PollEvent → List (Nat × Report)
  | .complete k (some r) =>
    if (s.step (.complete k (some r))).summary.applied = s.summary.applied + 1 then [(k, r)] else []
  | _ => []

/-- The answers applied along a run, in the order they are applied. -/
def appliedAlong : PollState → List PollEvent → List (Nat × Report)
  | _, [] => []
  | s, e :: es => s.appliedBy e ++ (s.step e).appliedAlong es

@[simp] theorem appliedAlong_nil (s : PollState) : s.appliedAlong [] = [] := rfl

@[simp] theorem appliedAlong_cons (s : PollState) (e : PollEvent) (es : List PollEvent) :
    s.appliedAlong (e :: es) = s.appliedBy e ++ (s.step e).appliedAlong es := rfl

/-- The loop applies an answer exactly when it is running, the request is in
flight and it is the latest one sent, and its fetch returned a report. -/
theorem appliedBy_complete :
    s.appliedBy (.complete k (some r)) =
      if s.stopped = false ∧ k ∈ s.inFlight ∧ k = s.counter then [(k, r)] else [] := by
  simp only [appliedBy]
  cases hs : s.stopped
  case true => simp [hs]
  case false =>
  rw [step_complete hs]
  by_cases hk : k ∈ s.inFlight
  · by_cases hc : k = s.counter
    · subst hc
      simp [hk, finish_applied]
    · simp [hk, hc, finish_stale hc]
  · simp [hk]

/-- A round that applies nothing leaves the sink, the count of applied
answers and whether the loop has returned as they were. -/
theorem step_of_appliedBy_eq_nil (h : s.appliedBy e = []) :
    (s.step e).calls = s.calls ∧ (s.step e).summary.applied = s.summary.applied ∧
      (s.step e).stopped = s.stopped := by
  cases hs : s.stopped
  case true => simp [hs]
  case false =>
  cases e with
  | tick => simp [step_tick hs, hs]
  | crash k =>
    rw [step_crash hs]
    split <;> simp [hs]
  | complete k res =>
    rw [step_complete hs]
    split
    case isFalse => simp [hs]
    case isTrue hk =>
      by_cases hc : k = s.counter
      · cases res with
        | none => simp [finish_failed hc, hs]
        | some r =>
          subst hc
          simp [appliedBy_complete, hs, hk] at h
      · simp [finish_stale hc, hs]

/-- A round that applies an answer is the loop running and the latest
request in flight finishing with a report, which is then applied. -/
theorem step_of_appliedBy_eq_cons {p : Nat × Report} {rest : List (Nat × Report)}
    (h : s.appliedBy e = p :: rest) :
    rest = [] ∧ e = .complete p.1 (some p.2) ∧ s.stopped = false ∧ p.1 ∈ s.inFlight ∧
      p.1 = s.counter ∧ s.step e = { s with inFlight := s.inFlight.erase p.1 }.applyReport p.2 := by
  match e with
  | .tick | .crash _ | .complete _ none => simp [appliedBy] at h
  | .complete k (some r) =>
    rw [appliedBy_complete] at h
    split at h
    case isFalse => cases h
    case isTrue hc =>
      obtain ⟨hs, hk, hkc⟩ := hc
      simp only [List.cons.injEq] at h
      obtain ⟨rfl, rfl⟩ := h
      exact ⟨rfl, rfl, hs, hk, hkc, by rw [step_complete hs, if_pos hk, finish_applied hkc]⟩

theorem applied_step (s : PollState) (e : PollEvent) :
    (s.step e).summary.applied = s.summary.applied + (s.appliedBy e).length := by
  cases h : s.appliedBy e with
  | nil => simp [(step_of_appliedBy_eq_nil h).2.1]
  | cons p rest =>
    obtain ⟨rfl, -, -, -, -, hstep⟩ := step_of_appliedBy_eq_cons h
    simp [hstep]

theorem calls_step (s : PollState) (e : PollEvent) :
    (s.step e).calls = s.calls ++ (s.appliedBy e).flatMap fun p => sinkCallsOf p.2.status := by
  cases h : s.appliedBy e with
  | nil => simp [(step_of_appliedBy_eq_nil h).1]
  | cons p rest =>
    obtain ⟨rfl, -, -, -, -, hstep⟩ := step_of_appliedBy_eq_cons h
    simp [hstep]

theorem stopped_step (s : PollState) (e : PollEvent) :
    (s.step e).stopped = (s.stopped || (s.appliedBy e).any fun p => p.2.done) := by
  cases h : s.appliedBy e with
  | nil => simp [(step_of_appliedBy_eq_nil h).2.2]
  | cons p rest =>
    obtain ⟨rfl, -, hs, -, -, hstep⟩ := step_of_appliedBy_eq_cons h
    simp [hstep, hs]

/-- Once the loop has returned it applies nothing. -/
theorem appliedAlong_of_stopped (h : s.stopped = true) (es : List PollEvent) :
    s.appliedAlong es = [] := by
  induction es with
  | nil => rfl
  | cons e es ih =>
    have hnil : s.appliedBy e = [] := by
      cases hb : s.appliedBy e with
      | nil => rfl
      | cons p rest => simp [(step_of_appliedBy_eq_cons hb).2.2.1] at h
    simp [hnil, step_of_stopped h, ih]

theorem applied_run (s : PollState) (es : List PollEvent) :
    (s.run es).summary.applied = s.summary.applied + (s.appliedAlong es).length := by
  induction es generalizing s with
  | nil => rfl
  | cons e es ih =>
    rw [run_cons, ih, applied_step, appliedAlong_cons, List.length_append]
    omega

theorem calls_run (s : PollState) (es : List PollEvent) :
    (s.run es).calls = s.calls ++ (s.appliedAlong es).flatMap fun p => sinkCallsOf p.2.status := by
  induction es generalizing s with
  | nil => simp
  | cons e es ih => simp [ih, calls_step]

theorem stopped_run (s : PollState) (es : List PollEvent) :
    (s.run es).stopped = (s.stopped || (s.appliedAlong es).any fun p => p.2.done) := by
  induction es generalizing s with
  | nil => simp
  | cons e es ih => simp [ih, stopped_step, Bool.or_assoc]

/-- An answer applied later answers a request sent no earlier than the
latest one now, and if it is the latest one, that request is in flight now. -/
theorem appliedAlong_latest (s : PollState) (es : List PollEvent) :
    ∀ p ∈ s.appliedAlong es, s.counter ≤ p.1 ∧ (p.1 = s.counter → p.1 ∈ s.inFlight) := by
  induction es generalizing s with
  | nil => simp
  | cons e es ih =>
    intro p hp
    rw [appliedAlong_cons, List.mem_append] at hp
    rcases hp with hp | hp
    · -- applied in this round: the latest request, in flight
      cases hb : s.appliedBy e with
      | nil => simp [hb] at hp
      | cons q qs =>
        obtain ⟨rfl, -, -, hk, hkc, -⟩ := step_of_appliedBy_eq_cons hb
        rw [hb, List.mem_singleton] at hp
        subst hp
        exact ⟨hkc.ge, fun _ => hk⟩
    · -- applied later: the counter never goes down, and while it stays the
      -- requests in flight only leave
      obtain ⟨hle, hin⟩ := ih (s.step e) p hp
      refine ⟨le_trans (counter_le_step s e) hle, fun heq => ?_⟩
      have hc : (s.step e).counter = s.counter := by
        have := counter_le_step s e
        omega
      exact inFlight_step_subset hc (hin (by omega))


/-- The answers applied along a run from a consistent state answer requests
with increasing numbers. -/
theorem appliedAlong_increasing (h : s.Consistent) (es : List PollEvent) :
    ((s.appliedAlong es).map Prod.fst).Pairwise (· < ·) := by
  induction es generalizing s with
  | nil => simp
  | cons e es ih =>
    rw [appliedAlong_cons, List.map_append, List.pairwise_append]
    cases hb : s.appliedBy e with
    | nil => simpa using ih (h.step e)
    | cons p rest =>
      obtain ⟨rfl, -, -, hk, hkc, hstep⟩ := step_of_appliedBy_eq_cons hb
      refine ⟨by simp, ih (h.step e), ?_⟩
      simp only [List.map_cons, List.map_nil, List.mem_singleton, forall_eq]
      intro b hb'
      obtain ⟨q, hq, rfl⟩ := List.mem_map.mp hb'
      obtain ⟨hle, hin⟩ := appliedAlong_latest (s.step e) es q hq
      -- after this round `p.1` is the latest number and has left the flight
      have hc : (s.step e).counter = p.1 := by simp [hstep, hkc]
      have hout : p.1 ∉ (s.step e).inFlight := by
        simp [hstep, h.nodup.mem_erase_iff]
      have hne : q.1 ≠ p.1 := fun heq => hout (heq ▸ hin (by omega))
      omega

/-- Nothing is applied after a report that says loading is done. -/
theorem done_of_mem_dropLast (es : List PollEvent) :
    ∀ p ∈ (s.appliedAlong es).dropLast, p.2.done = false := by
  induction es generalizing s with
  | nil => simp
  | cons e es ih =>
    rw [appliedAlong_cons]
    cases hb : s.appliedBy e with
    | nil => simpa using ih
    | cons p rest =>
      obtain ⟨rfl, -, -, -, -, hstep⟩ := step_of_appliedBy_eq_cons hb
      cases hd : p.2.done
      case true =>
        -- the loop returns in this round and applies nothing more
        have hstop : (s.step e).stopped = true := by simp [hstep, hd]
        simp [appliedAlong_of_stopped hstop]
      case false =>
        intro q hq
        cases hrest : (s.step e).appliedAlong es with
        | nil => simp [hrest] at hq
        | cons a as =>
          rw [hrest, List.singleton_append, List.dropLast_cons_cons, List.mem_cons] at hq
          rcases hq with rfl | hq
          · exact hd
          · exact ih q (by rw [hrest]; exact hq)

theorem filterMap_view_sinkCallsOf (v : Status) :
    (sinkCallsOf v).filterMap SinkCall.view? = if v = .unchanged then [] else [v] := by
  cases v <;> rfl

theorem count_finished_sinkCallsOf (v : Status) :
    (sinkCallsOf v).count .finished = if v = .finished then 1 else 0 := by
  cases v <;> rfl

/-- The sink is shown the statuses of the applied answers that show
something, in the order they were applied. -/
theorem views_flatMap (A : List (Nat × Report)) :
    (A.flatMap fun p => sinkCallsOf p.2.status).filterMap SinkCall.view? =
      (A.map (·.2.status)).filter (· ≠ .unchanged) := by
  induction A with
  | nil => rfl
  | cons p A ih =>
    rw [List.flatMap_cons, List.filterMap_append, ih, filterMap_view_sinkCallsOf]
    by_cases hu : p.2.status = .unchanged <;> simp [hu]

theorem count_finished_flatMap (A : List (Nat × Report)) :
    (A.flatMap fun p => sinkCallsOf p.2.status).count .finished = A.countP (·.2.done) := by
  induction A with
  | nil => rfl
  | cons p A ih =>
    rw [List.flatMap_cons, List.count_append, ih, count_finished_sinkCallsOf, List.countP_cons]
    by_cases hd : p.2.done <;> simp [hd, Report.status_eq_finished]
    omega

/-- In a list whose only possible report of a finished load is its last
one, at most one report says loading is done. -/
theorem countP_done_of_dropLast {A : List (Nat × Report)}
    (h : ∀ p ∈ A.dropLast, p.2.done = false) :
    A.countP (·.2.done) = if A.any (·.2.done) then 1 else 0 := by
  induction A using List.reverseRecOn with
  | nil => rfl
  | append_singleton A p _ =>
    rw [List.dropLast_concat] at h
    have hA : A.countP (·.2.done) = 0 := List.countP_eq_zero.mpr fun q hq => by simp [h q hq]
    have hany : A.any (·.2.done) = false := by simpa using fun q hq => h q hq
    cases hd : p.2.done <;> simp [List.countP_append, hA, hany, hd]

/-- When a run returns, the last answer it applied says loading is done,
and the sink's last two calls are the finished status and the signal. -/
theorem calls_of_stopped {es : List PollEvent} (h : (init.run es).stopped = true) :
    ∃ c, (init.run es).calls = c ++ [.update .finished, .finished] := by
  have hany : (init.appliedAlong es).any (·.2.done) = true := by
    simpa [init] using (stopped_run init es).symm.trans h
  have hlast : ∀ p ∈ (init.appliedAlong es).dropLast, p.2.done = false := done_of_mem_dropLast es
  obtain ⟨A, p, hA⟩ : ∃ A p, init.appliedAlong es = A ++ [p] := by
    cases hne : init.appliedAlong es using List.reverseRecOn with
    | nil => simp [hne] at hany
    | append_singleton A p _ => exact ⟨A, p, rfl⟩
  rw [hA, List.dropLast_concat] at hlast
  have hp : p.2.done = true := by
    have hnone : A.any (·.2.done) = false := by simpa using fun q hq => hlast q hq
    simpa [hA, hnone] using hany
  refine ⟨A.flatMap fun q => sinkCallsOf q.2.status, ?_⟩
  rw [calls_run, hA]
  simp [init, (Report.status_eq_finished p.2).mpr hp, sinkCallsOf]

end PollState

end EntityGraph.Progress
