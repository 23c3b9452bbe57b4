import Mathlib
import EntityGraph.Progress.Poll
import EntityGraph.Proofs.Progress.Loop

/-! # Polling on a paused clock

`poll` runs the loop over `schedule`: the ticks and the answers before the
time limit, sorted by time with a tick first at a shared moment. Two facts
about that order are proved here. The ticks come in the order of their
times, so request `k` goes out at `(k - 1) · interval`
(`schedule_tick_times`); and while the loop runs, the latest request when an
answer arriving at time `t` is taken is number `t / interval + 1`
(`counter_at_answer`). Both rest on one counting lemma: the ticks before an
answer in a sorted list are the ticks no later than it.

That count relies on the tick going first when a tick and an answer come
at one moment, which is the schedule's assumption: the loop may take
either. Taken in any order by time, the answer meets request
`t / interval + 1`, or `t / interval` when it arrives at a tick's moment
and is taken before that tick (`counter_at_answer_any_tie`).
-/

namespace EntityGraph.Progress

/-- Whether an event is a tick of the clock. -/
def PollEvent.isTick : PollEvent → Bool
  | .tick => true
  | _ => false

namespace PollState

variable {s : PollState} {es : List PollEvent}

/-- While the loop runs, each tick sends one request and nothing else
does. -/
theorem counter_step_of_running (h : (s.step e).stopped = false) :
    (s.step e).counter = s.counter + if e.isTick then 1 else 0 := by
  cases hs : s.stopped
  case true => simp [step_of_stopped hs] at h; simp_all
  case false =>
  cases e with
  | tick => simp [step_tick hs, PollEvent.isTick]
  | complete k res =>
    rw [step_complete hs]
    split <;> simp [PollEvent.isTick]
  | crash k =>
    rw [step_crash hs]
    split <;> simp [PollEvent.isTick]

/-- While the loop runs, the latest number counts the ticks. -/
theorem counter_run_of_running (h : (s.run es).stopped = false) :
    (s.run es).counter = s.counter + es.countP PollEvent.isTick := by
  induction es generalizing s with
  | nil => simp
  | cons e es ih =>
    rw [run_cons] at h ⊢
    -- a loop that is still running after the rest ran this round too
    have hstep : (s.step e).stopped = false := by
      cases hs : (s.step e).stopped
      · rfl
      · rw [run_of_stopped hs] at h
        simp [hs] at h
    rw [ih h, counter_step_of_running hstep, List.countP_cons]
    omega

end PollState

/-! ## The order of the schedule -/

namespace Timed

theorem rank_eq (x : Timed) : x.rank = if x.event.isTick then 0 else 1 := by
  cases hx : x.event <;> simp [rank, hx, PollEvent.isTick]

theorem before_trans (a b c : Timed) (hab : a.before b = true) (hbc : b.before c = true) :
    a.before c = true := by
  simp only [before, Bool.or_eq_true, decide_eq_true_eq, Bool.and_eq_true, beq_iff_eq] at *
  omega

theorem before_total (a b : Timed) : (a.before b || b.before a) = true := by
  simp only [before, Bool.or_eq_true, decide_eq_true_eq, Bool.and_eq_true, beq_iff_eq]
  omega

theorem time_le_of_before {a b : Timed} (h : a.before b = true) : a.time ≤ b.time := by
  simp only [before, Bool.or_eq_true, decide_eq_true_eq, Bool.and_eq_true, beq_iff_eq] at h
  omega

/-- A tick seen after an answer comes strictly later. -/
theorem time_lt_of_before_tick {a b : Timed} (h : a.before b = true)
    (ha : a.event.isTick = false) (hb : b.event.isTick = true) : a.time < b.time := by
  have hra : a.rank = 1 := by simp [rank_eq, ha]
  have hrb : b.rank = 0 := by simp [rank_eq, hb]
  simp only [before, Bool.or_eq_true, decide_eq_true_eq, Bool.and_eq_true, beq_iff_eq] at h
  omega

end Timed

section Schedule

variable {interval limit : Nat} {script : List Reply}

theorem schedule_pairwise :
    (schedule interval limit script).Pairwise fun a b => a.before b = true :=
  List.pairwise_mergeSort Timed.before_trans Timed.before_total _

theorem schedule_perm (interval limit : Nat) (script : List Reply) :
    (schedule interval limit script).Perm
      (ticks interval limit ++
        ((List.range (fetchCount interval limit)).map (answer interval script)).filter
          fun a => a.time < limit) :=
  List.mergeSort_perm _ _

theorem answer_not_isTick (i : Nat) : (answer interval script i).event.isTick = false := by
  unfold answer
  split <;> rfl

theorem ticks_isTick : ∀ x ∈ ticks interval limit, x.event.isTick = true := by
  simp [ticks, PollEvent.isTick]

/-- The ticks of the schedule: the ticks of the clock. -/
theorem schedule_filter_isTick_perm (interval limit : Nat) (script : List Reply) :
    ((schedule interval limit script).filter (·.event.isTick)).Perm (ticks interval limit) := by
  refine ((schedule_perm interval limit script).filter _).trans ?_
  rw [List.filter_append, List.filter_eq_self.mpr ticks_isTick]
  have hnone : (((List.range (fetchCount interval limit)).map (answer interval script)).filter
      fun a => a.time < limit).filter (·.event.isTick) = [] := by
    simp [List.filter_eq_nil_iff, answer_not_isTick]
  rw [hnone, List.append_nil]

/-- The clock ticks at every multiple of the interval below the time limit,
in order: the `k`-th tick, which sends request `k`, comes at
`(k - 1) · interval`. -/
theorem schedule_tick_times :
    ((schedule interval limit script).filter (·.event.isTick)).map (·.time) =
      (List.range (fetchCount interval limit)).map (· * interval) := by
  have hsorted : (((schedule interval limit script).filter (·.event.isTick)).map (·.time)).Pairwise
      (· ≤ ·) :=
    List.pairwise_map.mpr ((schedule_pairwise.filter _).imp Timed.time_le_of_before)
  have hrange : ((List.range (fetchCount interval limit)).map (· * interval)).Pairwise (· ≤ ·) :=
    List.pairwise_map.mpr ((List.pairwise_lt_range).imp fun h => Nat.mul_le_mul_right _ h.le)
  have hperm := (schedule_filter_isTick_perm interval limit script).map (·.time)
  rw [ticks, List.map_map] at hperm
  exact hperm.eq_of_pairwise' hsorted hrange

/-- Run from the start on a list of timed events, the loop that still runs
has sent one request per tick. -/
theorem counter_init_run_map {xs : List Timed}
    (h : (PollState.init.run (xs.map (·.event))).stopped = false) :
    (PollState.init.run (xs.map (·.event))).counter = xs.countP (·.event.isTick) := by
  rw [PollState.counter_run_of_running h, List.countP_map]
  exact Nat.zero_add _

theorem time_lt_of_mem_schedule {t k : Nat} {res : Option Report}
    (h : (⟨t, .complete k res⟩ : Timed) ∈ schedule interval limit script) : t < limit := by
  rcases List.mem_append.mp ((schedule_perm interval limit script).subset h) with h | h
  · simp [ticks] at h
  · simpa using (List.mem_filter.mp h).2

theorem eq_take_append_cons {L : List Timed} {j : Nat} {y : Timed} (hy : L[j]? = some y) :
    L = L.take j ++ y :: L.drop (j + 1) := by
  obtain ⟨hj, hget⟩ := List.getElem?_eq_some_iff.mp hy
  rw [← hget, ← List.drop_eq_getElem_cons hj, List.take_append_drop]

/-- In a list sorted by `before`, the ticks before an answer are the ticks
of the list no later than it. -/
theorem countP_isTick_take {L : List Timed} (hL : L.Pairwise fun a b => a.before b = true)
    {j : Nat} {y : Timed} (hy : L[j]? = some y) (hr : y.event.isTick = false) :
    (L.take j).countP (·.event.isTick) =
      L.countP fun x => x.event.isTick && decide (x.time ≤ y.time) := by
  have hsplit := eq_take_append_cons hy
  have hpw := hL
  rw [hsplit, List.pairwise_append] at hpw
  obtain ⟨-, hright, hcross⟩ := hpw
  rw [List.pairwise_cons] at hright
  conv_rhs => rw [hsplit]
  rw [List.countP_append, List.countP_cons, hr]
  -- before the answer every tick is no later; after it every tick is later
  have hbefore : (L.take j).countP (·.event.isTick) =
      (L.take j).countP fun x => x.event.isTick && decide (x.time ≤ y.time) := by
    apply List.countP_congr
    intro x hx
    have := Timed.time_le_of_before (hcross x hx y List.mem_cons_self)
    simp [this]
  have hafter : (L.drop (j + 1)).countP (fun x => x.event.isTick && decide (x.time ≤ y.time)) =
      0 := by
    rw [List.countP_eq_zero]
    intro x hx
    by_cases hx' : x.event.isTick = true
    · have := Timed.time_lt_of_before_tick (hright.1 x hx) hr hx'
      simp [hx']
      omega
    · simp [hx']
  simp [hbefore, hafter]

theorem countP_range_le (n m : Nat) : (List.range n).countP (· ≤ m) = min n (m + 1) := by
  induction n with
  | zero => simp
  | succ n ih =>
    rw [List.range_succ, List.countP_append, ih]
    by_cases h : n ≤ m <;> simp [h] <;> omega

/-- The ticks of the clock no later than a moment before the time limit:
one at every multiple of the interval up to it. -/
theorem countP_ticks_le (hI : 0 < interval) {t : Nat} (ht : t < limit) :
    (ticks interval limit).countP (fun x => x.event.isTick && decide (x.time ≤ t)) =
      t / interval + 1 := by
  have hfetch : t / interval < fetchCount interval limit := by
    rw [fetchCount, Nat.lt_iff_add_one_le, Nat.le_div_iff_mul_le hI, Nat.add_one_mul]
    have := Nat.div_mul_le_self t interval
    omega
  simp only [ticks, List.countP_map]
  rw [show ((fun x : Timed => x.event.isTick && decide (x.time ≤ t)) ∘
      fun i => (⟨i * interval, .tick⟩ : Timed)) = fun i => decide (i ≤ t / interval) from ?_]
  · rw [countP_range_le]
    omega
  · funext i
    simp [PollEvent.isTick, Nat.le_div_iff_mul_le hI]

theorem countP_range_lt (n m : Nat) : (List.range n).countP (· < m) = min n m := by
  induction n with
  | zero => simp
  | succ n ih =>
    rw [List.range_succ, List.countP_append, ih]
    by_cases h : n < m <;> simp [h] <;> omega

/-- The ticks of the clock strictly before a moment no later than the time
limit: one at every multiple of the interval below it, `⌈t / interval⌉`. -/
theorem countP_ticks_lt (hI : 0 < interval) {t : Nat} (ht : t ≤ limit) :
    (ticks interval limit).countP (fun x => x.event.isTick && decide (x.time < t)) =
      (t + interval - 1) / interval := by
  have hfetch : (t + interval - 1) / interval ≤ fetchCount interval limit :=
    Nat.div_le_div_right (by omega)
  simp only [ticks, List.countP_map]
  rw [show ((fun x : Timed => x.event.isTick && decide (x.time < t)) ∘
      fun i => (⟨i * interval, .tick⟩ : Timed)) =
        fun i => decide (i < (t + interval - 1) / interval) from ?_]
  · rw [countP_range_lt]
    omega
  · funext i
    have hlt : i * interval < t ↔ i < (t + interval - 1) / interval := by
      conv_rhs => rw [Nat.lt_iff_add_one_le, Nat.le_div_iff_mul_le hI, Nat.add_one_mul]
      omega
    simp [PollEvent.isTick, hlt]

/-- `⌈t / interval⌉` is `t / interval` at a multiple of the interval and one
more anywhere else. -/
theorem ceil_div_eq (hI : 0 < interval) (t : Nat) :
    (t + interval - 1) / interval = t / interval + if t % interval = 0 then 0 else 1 := by
  have hmod := Nat.mod_lt t hI
  have hsplit : t + interval - 1 = interval * (t / interval) + (t % interval + interval - 1) := by
    have := Nat.div_add_mod t interval
    omega
  rw [hsplit, Nat.mul_add_div hI]
  by_cases h0 : t % interval = 0
  · have hzero : (t % interval + interval - 1) / interval = 0 := Nat.div_eq_of_lt (by omega)
    rw [hzero, if_pos h0]
  · have hone : (t % interval + interval - 1) / interval = 1 :=
      Nat.div_eq_of_lt_le (by omega) (by omega)
    rw [hone, if_neg h0]

theorem countP_isTick_answers (q : Timed → Bool) :
    (((List.range (fetchCount interval limit)).map (answer interval script)).filter
      fun a => a.time < limit).countP (fun x => x.event.isTick && q x) = 0 := by
  simp [List.countP_eq_zero, answer_not_isTick]

/-- In a list sorted by time alone, whatever the order of the events of one
moment, the ticks before an answer take in every tick strictly earlier than
it and no tick later. -/
theorem countP_isTick_take_bounds {L : List Timed} (hL : L.Pairwise fun a b => a.time ≤ b.time)
    {j : Nat} {y : Timed} (hy : L[j]? = some y) :
    L.countP (fun x => x.event.isTick && decide (x.time < y.time)) ≤
        (L.take j).countP (·.event.isTick) ∧
      (L.take j).countP (·.event.isTick) ≤
        L.countP fun x => x.event.isTick && decide (x.time ≤ y.time) := by
  have hsplit := eq_take_append_cons hy
  have hpw := hL
  rw [hsplit, List.pairwise_append] at hpw
  obtain ⟨-, hright, hcross⟩ := hpw
  rw [List.pairwise_cons] at hright
  constructor
  · -- no event from the answer on is strictly earlier than it
    have hafter : (y :: L.drop (j + 1)).countP
        (fun x => x.event.isTick && decide (x.time < y.time)) = 0 := by
      rw [List.countP_eq_zero]
      intro x hx
      rcases List.mem_cons.1 hx with rfl | hx
      · simp
      · have := hright.1 x hx
        simp only [Bool.and_eq_true, decide_eq_true_eq, not_and, not_lt]
        exact fun _ => this
    conv_lhs => rw [hsplit]
    rw [List.countP_append, hafter, Nat.add_zero]
    refine List.countP_mono_left fun x _ hx => ?_
    simp only [Bool.and_eq_true] at hx
    exact hx.1
  · -- every event before the answer comes no later than it
    conv_rhs => rw [hsplit]
    rw [List.countP_append]
    have hbefore : (L.take j).countP (·.event.isTick) =
        (L.take j).countP fun x => x.event.isTick && decide (x.time ≤ y.time) := by
      apply List.countP_congr
      intro x hx
      simp [hcross x hx y List.mem_cons_self]
    rw [hbefore]
    exact Nat.le_add_right _ _

/-- While the loop runs, an answer arriving at time `t` is taken when the
latest request sent is number `t / interval + 1`: one request went out at
every multiple of the interval up to `t`, the one at `t` itself included
because the schedule puts a tick before an answer of the same moment. -/
theorem counter_at_answer (hI : 0 < interval) {j t k : Nat} {res : Option Report}
    (hj : (schedule interval limit script)[j]? = some ⟨t, .complete k res⟩)
    (hrun : (PollState.init.run
      (((schedule interval limit script).take j).map (·.event))).stopped = false) :
    (PollState.init.run (((schedule interval limit script).take j).map (·.event))).counter =
      t / interval + 1 := by
  have ht : t < limit := time_lt_of_mem_schedule (List.mem_of_getElem? hj)
  rw [counter_init_run_map hrun, countP_isTick_take schedule_pairwise hj rfl,
    (schedule_perm interval limit script).countP_eq, List.countP_append, countP_ticks_le hI ht,
    countP_isTick_answers]

/-- The loop may take a tick and an answer of one moment in either order.
In any order of the schedule's events by time, the latest request when an
answer arriving at time `t` is taken is number `t / interval + 1`, or, for
an answer taken before the tick of its own moment, number `t / interval`. -/
theorem counter_at_answer_any_tie (hI : 0 < interval) {L : List Timed}
    (hperm : L.Perm (schedule interval limit script))
    (hsorted : L.Pairwise fun a b => a.time ≤ b.time) {j t k : Nat} {res : Option Report}
    (hj : L[j]? = some ⟨t, .complete k res⟩)
    (hrun : (PollState.init.run ((L.take j).map (·.event))).stopped = false) :
    (PollState.init.run ((L.take j).map (·.event))).counter = t / interval + 1 ∨
      t % interval = 0 ∧ (PollState.init.run ((L.take j).map (·.event))).counter = t / interval := by
  have hperm' := hperm.trans (schedule_perm interval limit script)
  have ht : t < limit := time_lt_of_mem_schedule (hperm.subset (List.mem_of_getElem? hj))
  obtain ⟨hlo, hhi⟩ := countP_isTick_take_bounds hsorted hj
  rw [hperm'.countP_eq, List.countP_append, countP_ticks_lt hI ht.le, countP_isTick_answers] at hlo
  rw [hperm'.countP_eq, List.countP_append, countP_ticks_le hI ht, countP_isTick_answers] at hhi
  rw [counter_init_run_map hrun]
  rw [ceil_div_eq hI t] at hlo
  -- between `⌈t / interval⌉` and `t / interval + 1`, which differ only at a multiple
  by_cases h0 : t % interval = 0
  · simp only [h0, if_true] at hlo
    omega
  · simp only [h0, if_false] at hlo
    omega

end Schedule

/-! ## The answers a run applies -/

/-- Run from the start, the loop applies an answer only when it answers the
latest request sent, so the applied answers answer requests with increasing
numbers. The sink is shown the status of each applied answer that shows
something, in the order they were applied, and nothing else. The loop
returns when, and only when, an applied report says loading is done; that
report is the last one applied, its status is shown and then the end is
signalled, once, as the sink's last call, and no event after it changes
anything. On the paused clock, request `k` goes out at `(k - 1) · interval`,
and an answer arriving at time `t` meets request `t / interval + 1` as the
latest one. -/
theorem loop_applies_latest (es : List PollEvent) :
    (∀ (s : PollState) k r, s.appliedBy (.complete k (some r)) =
      if s.stopped = false ∧ k ∈ s.inFlight ∧ k = s.counter then [(k, r)] else []) ∧
    ((PollState.init.appliedAlong es).map Prod.fst).Pairwise (· < ·) ∧
    (PollState.init.run es).summary.applied = (PollState.init.appliedAlong es).length ∧
    (PollState.init.run es).calls.filterMap SinkCall.view? =
      ((PollState.init.appliedAlong es).map (·.2.status)).filter (· ≠ .unchanged) ∧
    ((PollState.init.run es).stopped = true ↔
      ∃ p ∈ PollState.init.appliedAlong es, p.2.done = true) ∧
    (∀ p ∈ (PollState.init.appliedAlong es).dropLast, p.2.done = false) ∧
    (PollState.init.run es).calls.count .finished =
      (if (PollState.init.run es).stopped then 1 else 0) ∧
    ((PollState.init.run es).stopped = true →
      ∃ c, (PollState.init.run es).calls = c ++ [.update .finished, .finished]) ∧
    (∀ es', (PollState.init.run es).stopped = true →
      PollState.init.run (es ++ es') = PollState.init.run es) ∧
    (∀ interval limit script,
      ((schedule interval limit script).filter (·.event.isTick)).map (·.time) =
        (List.range (fetchCount interval limit)).map (· * interval)) ∧
    (∀ interval limit script j t k res, 0 < interval →
      (schedule interval limit script)[j]? = some ⟨t, .complete k res⟩ →
      (PollState.init.run (((schedule interval limit script).take j).map (·.event))).stopped =
        false →
      (PollState.init.run (((schedule interval limit script).take j).map (·.event))).counter =
        t / interval + 1) := by
  have hstop : (PollState.init.run es).stopped =
      (PollState.init.appliedAlong es).any (·.2.done) := by
    simpa [PollState.init] using PollState.stopped_run PollState.init es
  have hcalls : (PollState.init.run es).calls =
      (PollState.init.appliedAlong es).flatMap fun p => PollState.sinkCallsOf p.2.status := by
    simpa [PollState.init] using PollState.calls_run PollState.init es
  refine ⟨fun _ _ _ => PollState.appliedBy_complete,
    PollState.appliedAlong_increasing PollState.init_consistent es,
    by simpa [PollState.init] using PollState.applied_run PollState.init es,
    by rw [hcalls, PollState.views_flatMap], by simp [hstop], PollState.done_of_mem_dropLast es,
    ?_, PollState.calls_of_stopped,
    fun es' h => by rw [PollState.run_append, PollState.run_of_stopped h],
    fun _ _ _ => schedule_tick_times, fun _ _ _ _ _ _ _ hI hj hrun => counter_at_answer hI hj hrun⟩
  rw [hcalls, PollState.count_finished_flatMap,
    PollState.countP_done_of_dropLast (PollState.done_of_mem_dropLast es), hstop]

end EntityGraph.Progress
