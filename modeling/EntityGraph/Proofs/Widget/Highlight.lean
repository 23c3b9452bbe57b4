import Mathlib
import EntityGraph.Widget.RowTable

/-! # The highlight colors of a row table

A table's highlights are read against the IRIs toggled since the colors
were last reset, newest first (`recentToggles`). A toggle highlights its IRI
when the IRI had been toggled an even number of times before it, and it is
then the next of the highlighting toggles that `highlightsIn` counts; the
color an IRI has after a history is the one its most recent toggle gave it,
if that toggle highlighted it (`highlightAfter`). The invariant `Coloured`
says that a table agrees with its history: the next color is the number of
highlighting toggles modulo six, and every IRI has the color its history
gives it. One step lemma per request keeps it, so it holds after every run
from a fresh table; the main theorem `highlight_cycle` reads the answers of
the highlight requests off it.
-/

namespace EntityGraph.Widget

/-! ## Histories of toggles -/

/-- How a request changes the IRIs toggled since the colors were last
reset, newest first. -/
def TableOp.record : TableOp → List String → List String
  | .toggleHighlight uri, h => uri :: h
  | .resetColors, _ => []
  | _, h => h

/-- A request toggles an IRI, resets the colors, or leaves the toggles
since the last reset as they are. -/
theorem TableOp.record_cases (op : TableOp) :
    (∃ v, op = .toggleHighlight v) ∨ op = .resetColors ∨
      ((∀ v, op ≠ .toggleHighlight v) ∧ op ≠ .resetColors ∧ ∀ h, op.record h = h) := by
  cases op <;> simp [TableOp.record]

/-- The IRIs toggled since the colors were last reset, or since the table
was made, newest first. -/
def recentToggles (ops : List TableOp) : List String :=
  ops.foldl (fun h op => op.record h) []

@[simp] theorem recentToggles_nil : recentToggles [] = [] := rfl

@[simp] theorem recentToggles_append_singleton (ops : List TableOp) (op : TableOp) :
    recentToggles (ops ++ [op]) = op.record (recentToggles ops) := by
  simp [recentToggles]

/-- How many toggles of a history, newest first, highlighted their IRI: a
toggle highlights an IRI toggled an even number of times before it. -/
def highlightsIn : List String → Nat
  | [] => 0
  | u :: older => highlightsIn older + if Even (older.count u) then 1 else 0

/-- The color an IRI has after a history of toggles, newest first: the one
its most recent toggle gave it, if that toggle highlighted it. -/
def highlightAfter (u : String) : List String → Option String
  | [] => none
  | v :: older =>
    if v = u then
      if Even (older.count u) then highlightColors[highlightsIn older % 6]? else none
    else highlightAfter u older

/-- Every count of highlights names a color of the cycle. -/
theorem getElem?_highlightColors (k : Nat) :
    highlightColors[k % 6]? = some (highlightColors.getD (k % 6) "violet") := by
  have hk : k % 6 < highlightColors.length := Nat.mod_lt _ (by decide)
  rw [List.getD_eq_getElem?_getD, List.getElem?_eq_getElem hk]
  rfl

theorem isSome_getElem?_highlightColors (k : Nat) : (highlightColors[k % 6]?).isSome := by
  rw [getElem?_highlightColors]
  rfl

@[simp] theorem highlightAfter_self (u : String) (h : List String) :
    highlightAfter u (u :: h) =
      if Even (h.count u) then highlightColors[highlightsIn h % 6]? else none := by
  simp [highlightAfter]

@[simp] theorem highlightAfter_of_ne {u v : String} (hv : v ≠ u) (h : List String) :
    highlightAfter u (v :: h) = highlightAfter u h := by
  simp [highlightAfter, hv]

/-- An IRI has a color exactly when it was toggled an odd number of times. -/
theorem isSome_highlightAfter (u : String) (h : List String) :
    (highlightAfter u h).isSome ↔ Odd (h.count u) := by
  induction h with
  | nil => simp [highlightAfter]
  | cons v older ih =>
    by_cases hv : v = u
    · subst hv
      rw [highlightAfter_self, List.count_cons_self, Nat.odd_add_one, Nat.not_odd_iff_even]
      by_cases he : Even (older.count v)
      · simp [he, isSome_getElem?_highlightColors]
      · simp [he]
    · simp [hv, ih]

/-- An IRI has no color exactly when it was toggled an even number of times. -/
theorem highlightAfter_eq_none_iff (u : String) (h : List String) :
    highlightAfter u h = none ↔ Even (h.count u) := by
  rw [← Option.not_isSome_iff_eq_none, isSome_highlightAfter, Nat.not_odd_iff_even]

/-! ## Highlight lists -/

theorem lookup_filter_self (l : List (String × String)) (u : String) :
    (l.filter (·.1 != u)).lookup u = none := by
  induction l with
  | nil => rfl
  | cons e l ih =>
    obtain ⟨k, c⟩ := e
    by_cases hk : k = u
    · simp [hk, ih]
    · have hne : (u == k) = false := beq_false_of_ne (Ne.symm hk)
      simp [hk, List.lookup_cons, hne, ih]

theorem lookup_filter_of_ne (l : List (String × String)) {u v : String} (hv : v ≠ u) :
    (l.filter (·.1 != u)).lookup v = l.lookup v := by
  induction l with
  | nil => rfl
  | cons e l ih =>
    obtain ⟨k, c⟩ := e
    by_cases hk : k = u
    · subst hk
      have hne : (v == k) = false := beq_false_of_ne hv
      simp [List.lookup_cons, hne, ih]
    · simp [hk, List.lookup_cons, ih]

theorem lookup_append_singleton_of_ne (l : List (String × String)) {u v : String} (c : String)
    (hv : v ≠ u) : (l ++ [(u, c)]).lookup v = l.lookup v := by
  have hne : (v == u) = false := beq_false_of_ne hv
  simp [List.lookup_append, List.lookup_cons, hne]

/-! ## A table that agrees with its history -/

namespace RowTable

/-- The highlights of a table agree with a history of toggles, newest
first: the cycle has moved on once per highlighting toggle, and every IRI
has the color its history gives it. -/
structure Coloured (t : RowTable) (h : List String) : Prop where
  nextColor_eq : t.nextColor = highlightsIn h % 6
  colorOf_eq : ∀ u, t.colorOf? u = highlightAfter u h

theorem coloured_ofRows (rows : List (List String)) : Coloured (ofRows rows) [] :=
  ⟨rfl, fun _ => rfl⟩

section Toggle

variable {t : RowTable} {h : List String}

/-- A toggle of a highlighted IRI removes its highlight and leaves the
cycle where it is. -/
theorem Coloured.toggle_odd (hc : Coloured t h) {u : String} (hodd : Odd (h.count u)) :
    t.toggleHighlight u = ({ t with highlighted := t.highlighted.filter (·.1 != u) }, none) ∧
      Coloured (t.toggleHighlight u).1 (u :: h) := by
  have hsome : (t.colorOf? u).isSome := by
    rw [hc.colorOf_eq, isSome_highlightAfter]
    exact hodd
  have heven : ¬Even (h.count u) := Nat.not_even_iff_odd.mpr hodd
  have htoggle : t.toggleHighlight u =
      ({ t with highlighted := t.highlighted.filter (·.1 != u) }, none) := by
    simp [toggleHighlight, hsome]
  refine ⟨htoggle, ?_, fun v => ?_⟩
  · simp [htoggle, hc.nextColor_eq, highlightsIn, heven]
  · rw [htoggle]
    by_cases hv : v = u
    · subst hv
      simp [colorOf?, lookup_filter_self, heven]
    · simp only [colorOf?]
      rw [lookup_filter_of_ne _ hv, highlightAfter_of_ne (Ne.symm hv)]
      exact hc.colorOf_eq v

/-- A toggle of an IRI without a highlight gives it the color the number of
highlighting toggles so far names, and moves the cycle on. -/
theorem Coloured.toggle_even (hc : Coloured t h) {u : String} (heven : Even (h.count u)) :
    (t.toggleHighlight u).2 = highlightColors[highlightsIn h % 6]? ∧
      Coloured (t.toggleHighlight u).1 (u :: h) := by
  have hnone : t.colorOf? u = none := by
    rw [hc.colorOf_eq, highlightAfter_eq_none_iff]
    exact heven
  have hcolor : highlightColors.getD t.nextColor "violet" =
      highlightColors.getD (highlightsIn h % 6) "violet" := by
    rw [hc.nextColor_eq]
  have htoggle : t.toggleHighlight u =
      ({ t with highlighted := t.highlighted ++ [(u, highlightColors.getD (highlightsIn h % 6) "violet")],
                nextColor := (t.nextColor + 1) % 6 }, highlightColors[highlightsIn h % 6]?) := by
    simp only [toggleHighlight, hnone, Option.isSome_none, Bool.false_eq_true, if_false, hcolor,
      getElem?_highlightColors]
    rfl
  refine ⟨by rw [htoggle], ?_, fun v => ?_⟩
  · simp only [htoggle, hc.nextColor_eq, highlightsIn, heven, if_true]
    omega
  · rw [htoggle]
    by_cases hv : v = u
    · subst hv
      simp only [colorOf?] at hnone
      rw [highlightAfter_self, if_pos heven, getElem?_highlightColors]
      simp [colorOf?, List.lookup_append, hnone]
    · simp only [colorOf?]
      rw [lookup_append_singleton_of_ne _ _ hv, highlightAfter_of_ne (Ne.symm hv)]
      exact hc.colorOf_eq v

/-- A toggle answers the color its IRI has right after it. -/
theorem Coloured.toggle (hc : Coloured t h) (u : String) :
    (t.toggleHighlight u).2 = highlightAfter u (u :: h) ∧
      Coloured (t.toggleHighlight u).1 (u :: h) := by
  rcases Nat.even_or_odd (h.count u) with heven | hodd
  · obtain ⟨hanswer, hc'⟩ := hc.toggle_even heven
    exact ⟨by simp [hanswer, heven], hc'⟩
  · obtain ⟨htoggle, hc'⟩ := hc.toggle_odd hodd
    exact ⟨by simp [htoggle, Nat.not_even_iff_odd.mpr hodd], hc'⟩

/-- Every request keeps a table in agreement with its history. -/
theorem Coloured.step (hc : Coloured t h) (op : TableOp) : Coloured (t.step op).1 (op.record h) := by
  cases op with
  | toggleHighlight u => exact (hc.toggle u).2
  | colorOf u => exact hc
  | resetColors => exact ⟨rfl, fun _ => rfl⟩
  | bringToFront u => exact ⟨hc.nextColor_eq, hc.colorOf_eq⟩
  | resetOrder => exact ⟨hc.nextColor_eq, hc.colorOf_eq⟩
  | size => exact hc
  | order => exact hc

end Toggle

theorem Coloured.run {t : RowTable} {h : List String} (hc : Coloured t h) (ops : List TableOp) :
    Coloured (t.run ops) (ops.foldl (fun h op => op.record h) h) := by
  induction ops generalizing t h with
  | nil => exact hc
  | cons op ops ih => exact ih (hc.step op)

/-- A table made from any rows and served any requests agrees with the
toggles since the colors were last reset. -/
theorem coloured_run (rows : List (List String)) (ops : List TableOp) :
    Coloured ((ofRows rows).run ops) (recentToggles ops) :=
  (coloured_ofRows rows).run ops

end RowTable

/-! ## The most recent toggle -/

/-- An IRI toggled an odd number of times since the last reset was last
toggled by a request that no reset and no toggle of it followed, when it
had been toggled an even number of times; the color it has is the one that
toggle gave it. -/
theorem exists_last_toggle (u : String) (ops : List TableOp)
    (hodd : Odd ((recentToggles ops).count u)) :
    ∃ pre post, ops = pre ++ .toggleHighlight u :: post ∧ .toggleHighlight u ∉ post ∧
      .resetColors ∉ post ∧ Even ((recentToggles pre).count u) ∧
      highlightAfter u (recentToggles ops) = highlightAfter u (u :: recentToggles pre) := by
  induction ops using List.reverseRecOn with
  | nil => simp at hodd
  | append_singleton ops op ih =>
    rcases TableOp.record_cases op with ⟨v, rfl⟩ | rfl | ⟨hnt, hnr, hrec⟩
    · by_cases hv : v = u
      · -- the last request is the toggle
        subst hv
        simp only [recentToggles_append_singleton, TableOp.record, List.count_cons_self,
          Nat.odd_add_one, Nat.not_odd_iff_even] at hodd
        exact ⟨ops, [], by simp, by simp, by simp, hodd, by simp [TableOp.record]⟩
      · simp only [recentToggles_append_singleton, TableOp.record,
          List.count_cons_of_ne hv] at hodd
        obtain ⟨pre, post, rfl, hu, hr, heven, hafter⟩ := ih hodd
        refine ⟨pre, post ++ [.toggleHighlight v], by simp, by simp [hu, Ne.symm hv], by simp [hr],
          heven, ?_⟩
        rw [recentToggles_append_singleton, TableOp.record, highlightAfter_of_ne hv, hafter]
    · simp [TableOp.record] at hodd
    · -- any other request leaves the history as it is
      rw [recentToggles_append_singleton, hrec] at hodd
      obtain ⟨pre, post, rfl, hu, hr, heven, hafter⟩ := ih hodd
      refine ⟨pre, post ++ [op], by simp, by simp [hu, Ne.symm (hnt u)], by simp [hr, Ne.symm hnr],
        heven, ?_⟩
      rw [recentToggles_append_singleton, hrec, hafter]

/-! ## The highlight requests -/

namespace RowTable

/-- A toggle request answers the color its IRI has right after it. -/
theorem Coloured.answer_toggle {t : RowTable} {h : List String} (hc : Coloured t h) (u : String) :
    (t.step (.toggleHighlight u)).2 = .color (highlightAfter u (u :: h)) := by
  show TableAnswer.color (t.toggleHighlight u).2 = _
  rw [(hc.toggle u).1]

/-- A color request answers the color its IRI has. -/
theorem Coloured.answer_colorOf {t : RowTable} {h : List String} (hc : Coloured t h) (u : String) :
    (t.step (.colorOf u)).2 = .color (highlightAfter u h) := by
  show TableAnswer.color (t.colorOf? u) = _
  rw [hc.colorOf_eq]

/-- What the highlight requests of a table made from `rows` answer once the
requests `ops` have been served (the table `t`), counted against the IRIs
toggled since the colors were last reset. -/
structure HighlightSpec (rows : List (List String)) (ops : List TableOp) (t : RowTable) : Prop where
  /-- The next color is one of the cycle, so taking it never fails. -/
  nextColor_lt : t.nextColor < highlightColors.length
  /-- A toggle of an IRI toggled an odd number of times since the reset
  removes its highlight and answers none; any other toggle answers the color
  numbered, modulo six, by the highlighting toggles since the reset before
  it. -/
  toggle : ∀ u, (t.step (.toggleHighlight u)).2 = .color
    (if Odd ((recentToggles ops).count u) then none
      else highlightColors[highlightsIn (recentToggles ops) % 6]?)
  /-- A toggle answers none exactly when its IRI is highlighted. -/
  toggle_none : ∀ u, (t.step (.toggleHighlight u)).2 = .color none ↔ (t.colorOf? u).isSome
  /-- A toggle that removes a highlight does not move the cycle on. -/
  remove_keeps_cycle : ∀ u, Odd ((recentToggles ops).count u) →
    (t.step (.toggleHighlight u)).1.nextColor = t.nextColor
  /-- An IRI is highlighted exactly when it was toggled an odd number of
  times since the reset. -/
  highlighted_iff : ∀ u, (t.colorOf? u).isSome ↔ Odd ((recentToggles ops).count u)
  /-- Its color is then the one that its most recent toggle, after which
  came no reset, answered. -/
  colorOf_odd : ∀ u, Odd ((recentToggles ops).count u) → ∃ pre post c,
    ops = pre ++ .toggleHighlight u :: post ∧ .toggleHighlight u ∉ post ∧ .resetColors ∉ post ∧
      (((ofRows rows).run pre).step (.toggleHighlight u)).2 = .color (some c) ∧
      (t.step (.colorOf u)).2 = .color (some c)
  /-- Otherwise it has no color. -/
  colorOf_even : ∀ u, Even ((recentToggles ops).count u) → (t.step (.colorOf u)).2 = .color none

/-- The highlight requests of a table made from any rows, after any
requests. -/
theorem highlight_cycle (rows : List (List String)) (ops : List TableOp) :
    HighlightSpec rows ops ((ofRows rows).run ops) := by
  have hc := coloured_run rows ops
  have hsome : ∀ u, (((ofRows rows).run ops).colorOf? u).isSome ↔
      Odd ((recentToggles ops).count u) := fun u => by
    rw [hc.colorOf_eq, isSome_highlightAfter]
  refine ⟨?_, fun u => ?_, fun u => ?_, fun u hodd => ?_, hsome, fun u hodd => ?_, fun u heven => ?_⟩
  · rw [hc.nextColor_eq]
    exact Nat.mod_lt _ (by decide)
  · rw [hc.answer_toggle, highlightAfter_self]
    simp only [← Nat.not_odd_iff_even, ite_not]
  · -- a toggle leaves no color exactly when the count before it was odd
    rw [hc.answer_toggle, hsome, TableAnswer.color.injEq, highlightAfter_eq_none_iff,
      List.count_cons_self, Nat.even_add_one, Nat.not_even_iff_odd]
  · simp only [step, (hc.toggle_odd hodd).1]
  · -- the color is the one the last toggle of `u` answered
    obtain ⟨pre, post, hops, hu, hr, heven, hafter⟩ := exists_last_toggle u ops hodd
    obtain ⟨c, hc'⟩ := Option.isSome_iff_exists.mp ((isSome_highlightAfter u _).mpr hodd)
    refine ⟨pre, post, c, hops, hu, hr, ?_, ?_⟩
    · rw [(coloured_run rows pre).answer_toggle, ← hafter, hc']
    · rw [hc.answer_colorOf, hc']
  · rw [hc.answer_colorOf, TableAnswer.color.injEq, highlightAfter_eq_none_iff]
    exact heven

end RowTable

end EntityGraph.Widget
