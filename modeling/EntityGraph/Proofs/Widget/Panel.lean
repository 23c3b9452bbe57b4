import EntityGraph.Widget.Toggle
import Mathlib.Data.List.Find
import Mathlib.Data.List.Induction
/-! The show/hide panel over any sequence of presses. Each flip, plain or with
a builder, changes whether the panel is shown, so it is shown exactly after an
odd number of flips. The content is built once: by the builder of the first
press that flips the panel with a builder and leaves it shown, and by no other.

The builders are actions in a state monad that note, when they run, the
position of their press; the notes of a session are the builders that ran. -/

namespace EntityGraph.Widget.Toggle

/-- A press without its builder. -/
inductive Kind where
  | toggle
  | toggleWith
  | label
  deriving DecidableEq

/-- Whether a press flips the panel. -/
def Kind.flips : Kind → Bool
  | .label => false
  | _ => true

/-- The number of flips among presses. -/
def flipCount (ks : List Kind) : Nat := ks.countP Kind.flips

/-- The position of the first press that flips the panel with a builder and
is an odd-numbered flip. -/
def firstShownWith (ks : List Kind) : Option Nat :=
  (List.range ks.length).find? fun i =>
    ks[i]? == some .toggleWith && flipCount (ks.take (i + 1)) % 2 == 1

/-- The button text after `n` flips. -/
def labelAfter (showText hideText : String) (n : Nat) : String :=
  if n % 2 = 1 then hideText else showText

/-- A builder that notes the position `i` of its press when it runs, and
builds `b`. -/
def noted (i : Nat) (b : α) : Unit → StateM (List Nat) α := fun _ => do
  modify (· ++ [i])
  pure b

/-- The press of a kind at position `i`; its builder notes `i` and builds
`build i`. -/
def Kind.press (build : Nat → α) (i : Nat) : Kind → Press (StateM (List Nat)) α
  | .toggle => .toggle
  | .toggleWith => .toggleWith (noted i (build i))
  | .label => .label

/-- The presses of a list of kinds, each builder noting its own position. -/
def presses (build : Nat → α) (ks : List Kind) : List (Press (StateM (List Nat)) α) :=
  ks.mapIdx (Kind.press build)

/-- The panel, the texts answered and the builders that ran, after a session
of presses of the given kinds on a new panel. -/
def sessionOf (showText hideText : String) (build : Nat → α) (ks : List Kind) :
    (Toggle α × List String) × List Nat :=
  ((new showText hideText).session (presses build ks)).run []

section Spec

@[simp] theorem flipCount_nil : flipCount [] = 0 := rfl

theorem flipCount_append_singleton (ks : List Kind) (k : Kind) :
    flipCount (ks ++ [k]) = flipCount ks + if k.flips then 1 else 0 := by
  simp [flipCount, List.countP_append]

@[simp] theorem flipCount_append_label (ks : List Kind) : flipCount (ks ++ [.label]) = flipCount ks := by
  simp [flipCount_append_singleton, Kind.flips]

theorem flipCount_append_of_flips (ks : List Kind) {k : Kind} (hk : k.flips = true) :
    flipCount (ks ++ [k]) = flipCount ks + 1 := by
  simp [flipCount_append_singleton, hk]

@[simp] theorem firstShownWith_nil : firstShownWith [] = none := rfl

/-- The first builder press that leaves the panel shown, in the terms of the
presses alone. -/
theorem firstShownWith_eq_some_iff (ks : List Kind) (i : Nat) :
    firstShownWith ks = some i ↔
      ks[i]? = some .toggleWith ∧ flipCount (ks.take (i + 1)) % 2 = 1 ∧
      ∀ j < i, ¬(ks[j]? = some .toggleWith ∧ flipCount (ks.take (j + 1)) % 2 = 1) := by
  simp only [firstShownWith, List.find?_range_eq_some, Bool.and_eq_true, beq_iff_eq,
    List.mem_range, Bool.not_and]
  constructor
  · rintro ⟨⟨hk, hodd⟩, -, hbefore⟩
    refine ⟨hk, hodd, fun j hj ⟨hkj, hoddj⟩ => ?_⟩
    have := hbefore j hj
    simp_all
  · rintro ⟨hk, hodd, hbefore⟩
    have hi : i < ks.length := (List.getElem?_eq_some_iff.mp hk).1
    refine ⟨⟨hk, hodd⟩, hi, fun j hj => ?_⟩
    have := hbefore j hj
    by_cases hkj : ks[j]? = some .toggleWith <;> simp_all

/-- A press appended after the first builder press that showed the panel
does not change which one it was; otherwise the press is the first when it is a
builder press that leaves the panel shown. -/
theorem firstShownWith_append_singleton (ks : List Kind) (k : Kind) :
    firstShownWith (ks ++ [k]) = (firstShownWith ks).or
      (if k = .toggleWith ∧ flipCount (ks ++ [k]) % 2 = 1 then some ks.length else none) := by
  have hsame : ∀ i ∈ List.range ks.length,
      ((ks ++ [k])[i]? == some .toggleWith && flipCount ((ks ++ [k]).take (i + 1)) % 2 == 1) =
      (ks[i]? == some .toggleWith && flipCount (ks.take (i + 1)) % 2 == 1) := by
    intro i hi
    have hi : i < ks.length := List.mem_range.mp hi
    rw [List.getElem?_append_left hi, List.take_append_of_le_length hi]
  have hlast : (List.range ks.length ++ [ks.length]).find? (fun i =>
      (ks ++ [k])[i]? == some .toggleWith && flipCount ((ks ++ [k]).take (i + 1)) % 2 == 1) =
      (firstShownWith ks).or ([ks.length].find? fun i =>
        (ks ++ [k])[i]? == some .toggleWith && flipCount ((ks ++ [k]).take (i + 1)) % 2 == 1) := by
    rw [List.find?_append, List.find?_congr hsame]
    rfl
  simp only [firstShownWith, List.length_append, List.length_singleton, List.range_succ] at hlast ⊢
  rw [hlast]
  congr 1
  by_cases hk : k = .toggleWith ∧ flipCount (ks ++ [k]) % 2 = 1
  · simp [hk.1, List.take_of_length_le]
  · simp only [List.find?_singleton,
      List.take_of_length_le (by simp : (ks ++ [k]).length ≤ ks.length + 1), if_neg hk]
    rw [if_neg]
    simpa using hk

/-- A press without a builder is never the first builder press. -/
theorem firstShownWith_append_of_ne (ks : List Kind) {k : Kind} (hk : k ≠ .toggleWith) :
    firstShownWith (ks ++ [k]) = firstShownWith ks := by
  simp [firstShownWith_append_singleton, hk]

/-- Once a builder press has shown the panel, later presses keep it the first. -/
theorem firstShownWith_append_of_eq_some {ks : List Kind} {i : Nat}
    (h : firstShownWith ks = some i) (more : List Kind) :
    firstShownWith (ks ++ more) = some i := by
  induction more using List.reverseRecOn with
  | nil => simpa using h
  | append_singleton more k ih =>
    rw [← List.append_assoc, firstShownWith_append_singleton, ih]
    rfl

/-- The texts a session of presses answers: each press answers the text the
button shows after it. -/
def labelsOf (showText hideText : String) (ks : List Kind) : List String :=
  (List.range ks.length).map fun i => labelAfter showText hideText (flipCount (ks.take (i + 1)))

theorem labelsOf_append_singleton (showText hideText : String) (ks : List Kind) (k : Kind) :
    labelsOf showText hideText (ks ++ [k]) =
      labelsOf showText hideText ks ++ [labelAfter showText hideText (flipCount (ks ++ [k]))] := by
  simp only [labelsOf, List.length_append, List.length_singleton, List.range_succ, List.map_append,
    List.map_singleton, List.take_of_length_le (by simp : (ks ++ [k]).length ≤ ks.length + 1)]
  congr 1
  apply List.map_congr_left
  intro i hi
  rw [List.take_append_of_le_length (List.mem_range.mp hi)]

end Spec

section Session

theorem presses_append_singleton (build : Nat → α) (ks : List Kind) (k : Kind) :
    presses build (ks ++ [k]) = presses build ks ++ [k.press build ks.length] :=
  List.mapIdx_concat

/-- A panel in agreement with the kinds of the presses made on it and with the
builders that ran. -/
structure Tracks (showText hideText : String) (build : Nat → α) (ks : List Kind)
    (t : Toggle α) (calls : List Nat) : Prop where
  showText_eq : t.showText = showText
  hideText_eq : t.hideText = hideText
  hidden_eq : t.hidden = decide (flipCount ks % 2 = 0)
  content_eq : t.content = (firstShownWith ks).map build
  calls_eq : calls = (firstShownWith ks).toList

variable {showText hideText : String} {build : Nat → α}

theorem tracks_new : Tracks showText hideText build [] (new showText hideText) [] :=
  ⟨rfl, rfl, rfl, rfl, rfl⟩

theorem Tracks.label_eq {ks : List Kind} {t : Toggle α} {calls : List Nat}
    (ht : Tracks showText hideText build ks t calls) :
    t.label = labelAfter showText hideText (flipCount ks) := by
  rcases Nat.mod_two_eq_zero_or_one (flipCount ks) with h | h <;>
    simp [label, labelAfter, ht.hidden_eq, ht.showText_eq, ht.hideText_eq, h]

/-- A panel is determined by the number of flips and the first builder press
that showed it. -/
theorem Tracks.eq {ks ks' : List Kind} {t t' : Toggle α} {calls calls' : List Nat}
    (ht : Tracks showText hideText build ks t calls)
    (ht' : Tracks showText hideText build ks' t' calls')
    (hflips : flipCount ks' = flipCount ks) (hfirst : firstShownWith ks' = firstShownWith ks) :
    t' = t ∧ calls' = calls := by
  refine ⟨?_, by rw [ht'.calls_eq, ht.calls_eq, hfirst]⟩
  obtain ⟨hidden, s, h, c⟩ := t
  obtain ⟨hidden', s', h', c'⟩ := t'
  simp only [mk.injEq]
  refine ⟨?_, ht'.showText_eq.trans ht.showText_eq.symm, ht'.hideText_eq.trans ht.hideText_eq.symm, ?_⟩
  · exact ht'.hidden_eq.trans (by rw [hflips]; exact ht.hidden_eq.symm)
  · exact ht'.content_eq.trans (by rw [hfirst]; exact ht.content_eq.symm)

theorem decide_succ_mod_two (n : Nat) : decide ((n + 1) % 2 = 0) = !decide (n % 2 = 0) := by
  rcases Nat.mod_two_eq_zero_or_one n with h | h <;> simp [Nat.add_mod, h]

/-- Reading the button text keeps the agreement. -/
theorem Tracks.append_label {ks : List Kind} {t : Toggle α} {calls : List Nat}
    (ht : Tracks showText hideText build ks t calls) :
    Tracks showText hideText build (ks ++ [.label]) t calls :=
  have hfirst := firstShownWith_append_of_ne ks (k := .label) nofun
  ⟨ht.showText_eq, ht.hideText_eq, by rw [flipCount_append_label, ht.hidden_eq],
    by rw [hfirst, ht.content_eq], by rw [hfirst, ht.calls_eq]⟩

/-- A flip that builds nothing keeps the agreement with the flipped panel. -/
theorem Tracks.toggle {ks : List Kind} {t : Toggle α} {calls : List Nat}
    (ht : Tracks showText hideText build ks t calls) {k : Kind} (hk : k.flips = true)
    (hfirst : firstShownWith (ks ++ [k]) = firstShownWith ks) :
    Tracks showText hideText build (ks ++ [k]) t.toggle calls :=
  ⟨ht.showText_eq, ht.hideText_eq,
    by simp [flipCount_append_of_flips ks hk, decide_succ_mod_two, ht.hidden_eq],
    by rw [hfirst, content_toggle, ht.content_eq], by rw [hfirst, ht.calls_eq]⟩

section Run

variable {t : Toggle α} {i : Nat} {calls : List Nat}

@[simp] theorem run_press_toggle :
    (t.press (Kind.toggle.press build i)).run calls = ((t.toggle, t.toggle.label), calls) := rfl

@[simp] theorem run_press_label :
    (t.press (Kind.label.press build i)).run calls = ((t, t.label), calls) := rfl

/-- A builder press on a hidden panel without content runs its builder. -/
theorem run_press_toggleWith_of_build (hh : t.hidden = true) (hc : t.content = none) :
    (t.press (Kind.toggleWith.press build i)).run calls =
      (({ t.toggle with content := some (build i) },
        ({ t.toggle with content := some (build i) } : Toggle α).label), calls ++ [i]) := by
  rw [Kind.press, press, toggleWithM_of_build t _ hh hc]
  rfl

/-- Any other builder press only flips the panel. -/
theorem run_press_toggleWith_of_not_build (h : ¬(t.hidden = true ∧ t.content = none)) :
    (t.press (Kind.toggleWith.press build i)).run calls = ((t.toggle, t.toggle.label), calls) := by
  rw [Kind.press, press, toggleWithM_of_not_build t _ h]
  rfl

end Run

/-- One press keeps the agreement and answers the text after it. -/
theorem Tracks.step {ks : List Kind} {t : Toggle α} {calls : List Nat}
    (ht : Tracks showText hideText build ks t calls) (k : Kind) :
    Tracks showText hideText build (ks ++ [k]) ((t.press (k.press build ks.length)).run calls).1.1
        ((t.press (k.press build ks.length)).run calls).2 ∧
      ((t.press (k.press build ks.length)).run calls).1.2 =
        labelAfter showText hideText (flipCount (ks ++ [k])) := by
  cases k with
  | label =>
    rw [run_press_label, flipCount_append_label]
    exact ⟨ht.append_label, ht.label_eq⟩
  | toggle =>
    have ht' := ht.toggle (k := .toggle) rfl (firstShownWith_append_of_ne ks nofun)
    rw [run_press_toggle]
    exact ⟨ht', ht'.label_eq⟩
  | toggleWith =>
    have hflips := flipCount_append_of_flips ks (k := .toggleWith) rfl
    by_cases hbuild : t.hidden = true ∧ t.content = none
    · -- the panel is shown for the first time with a builder: the builder runs
      have heven : flipCount ks % 2 = 0 := by simpa [ht.hidden_eq] using hbuild.1
      have hnone : firstShownWith ks = none := by simpa [ht.content_eq] using hbuild.2
      have hfirst : firstShownWith (ks ++ [.toggleWith]) = some ks.length := by
        simp [firstShownWith_append_singleton, hnone, hflips, Nat.add_mod, heven]
      have ht' : Tracks showText hideText build (ks ++ [.toggleWith])
          { t.toggle with content := some (build ks.length) } (calls ++ [ks.length]) :=
        ⟨ht.showText_eq, ht.hideText_eq, by simp [hflips, decide_succ_mod_two, heven, hbuild.1],
          by simp [hfirst], by simp [hfirst, ht.calls_eq, hnone]⟩
      rw [run_press_toggleWith_of_build hbuild.1 hbuild.2]
      exact ⟨ht', ht'.label_eq⟩
    · -- the panel is hidden now, or already has content: the builder does not run
      have hfirst : firstShownWith (ks ++ [.toggleWith]) = firstShownWith ks := by
        rw [firstShownWith_append_singleton]
        cases hk : firstShownWith ks with
        | some i => rfl
        | none =>
          have hodd : flipCount ks % 2 = 1 := by
            have : t.hidden = false := by simpa [ht.content_eq, hk] using hbuild
            simpa [ht.hidden_eq] using this
          simp [hflips, Nat.add_mod, hodd]
      have ht' := ht.toggle (k := .toggleWith) rfl hfirst
      rw [run_press_toggleWith_of_not_build hbuild]
      exact ⟨ht', ht'.label_eq⟩

theorem sessionOf_append_singleton (ks : List Kind) (k : Kind) :
    sessionOf showText hideText build (ks ++ [k]) =
      (((((sessionOf showText hideText build ks).1.1.press (k.press build ks.length)).run
          (sessionOf showText hideText build ks).2).1.1,
        (sessionOf showText hideText build ks).1.2 ++
          [(((sessionOf showText hideText build ks).1.1.press (k.press build ks.length)).run
            (sessionOf showText hideText build ks).2).1.2]),
        (((sessionOf showText hideText build ks).1.1.press (k.press build ks.length)).run
          (sessionOf showText hideText build ks).2).2) := by
  simp only [sessionOf, presses_append_singleton, session_append_singleton]
  rfl

/-- A session keeps the agreement and answers, press by press, the text the
button shows after that press. -/
theorem tracks_sessionOf (ks : List Kind) :
    Tracks showText hideText build ks (sessionOf showText hideText build ks).1.1
        (sessionOf showText hideText build ks).2 ∧
      (sessionOf showText hideText build ks).1.2 = labelsOf showText hideText ks := by
  induction ks using List.reverseRecOn with
  | nil => exact ⟨tracks_new, rfl⟩
  | append_singleton ks k ih =>
    rw [sessionOf_append_singleton]
    generalize sessionOf showText hideText build ks = r at ih ⊢
    obtain ⟨⟨t, labels⟩, calls⟩ := r
    obtain ⟨ht, hlabels⟩ := ih
    obtain ⟨ht', hl⟩ := ht.step k
    exact ⟨ht', by rw [labelsOf_append_singleton, ← hl, ← hlabels]⟩

end Session

/-- What a session of presses does to a new panel with the texts `showText`
and `hideText`, the builder of a press at position `i` building `build i`. -/
structure PanelSpec (showText hideText : String) (build : Nat → α) (ks : List Kind)
    (r : (Toggle α × List String) × List Nat) : Prop where
  /-- The panel is shown exactly after an odd number of flips. -/
  shown_iff : r.1.1.hidden = false ↔ flipCount ks % 2 = 1
  /-- Each press answers `hideText` after an odd number of flips and
  `showText` after an even number. -/
  labels_eq : r.1.2 = labelsOf showText hideText ks
  /-- At most one builder runs. -/
  calls_length_le : r.2.length ≤ 1
  /-- The builder that runs is the one of the first builder press that is an
  odd-numbered flip, and no builder runs without one. -/
  calls_eq : r.2 = (firstShownWith ks).toList
  /-- The content is what that builder built. -/
  content_eq : r.1.1.content = (firstShownWith ks).map build

/-- Over every sequence of presses: the panel is shown after an odd number of
flips, each press answers the text for its parity, one builder at most runs,
that of the first builder press which shows the panel, its content then stays,
and reading the button text changes nothing. -/
theorem panel_session (showText hideText : String) (build : Nat → α) (ks : List Kind) :
    PanelSpec showText hideText build ks (sessionOf showText hideText build ks) ∧
    (∀ i more, firstShownWith ks = some i →
      (sessionOf showText hideText build (ks ++ more)).1.1.content = some (build i)) ∧
    (sessionOf showText hideText build (ks ++ [.label])).1.1 =
        (sessionOf showText hideText build ks).1.1 ∧
      (sessionOf showText hideText build (ks ++ [.label])).2 =
        (sessionOf showText hideText build ks).2 := by
  obtain ⟨ht, hlabels⟩ := @tracks_sessionOf _ showText hideText build ks
  refine ⟨⟨?shown, hlabels, ?length, ht.calls_eq, ht.content_eq⟩, ?kept, ?label⟩
  case shown =>
    rw [ht.hidden_eq]
    rcases Nat.mod_two_eq_zero_or_one (flipCount ks) with h | h <;> simp [h]
  case length =>
    rw [ht.calls_eq]
    cases firstShownWith ks <;> simp
  case kept =>
    intro i more hi
    rw [(tracks_sessionOf (ks ++ more)).1.content_eq, firstShownWith_append_of_eq_some hi]
    rfl
  case label =>
    obtain ⟨ht', -⟩ := @tracks_sessionOf _ showText hideText build (ks ++ [.label])
    exact ht.eq ht' (flipCount_append_label ks) (firstShownWith_append_of_ne ks nofun)

/-- Five builder presses run the first builder only. -/
example : (sessionOf "Show" "Hide" id (List.replicate 5 .toggleWith)).2 = [0] := by decide

end EntityGraph.Widget.Toggle
