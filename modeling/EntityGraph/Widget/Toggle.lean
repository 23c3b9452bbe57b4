/-! A panel that can be shown and hidden, starting hidden, whose button
reads "Show" while it is hidden and "Hide" while it is shown. Its content
may be built the first time it is shown, and is kept after that. The builder
is an action in a monad, so that its running is seen; a plain function is
the builder in `Id`. -/

namespace EntityGraph.Widget

/-- A panel with a lazily built content. -/
structure Toggle (α : Type) where
  hidden : Bool := true
  showText : String := "Show"
  hideText : String := "Hide"
  content : Option α := none

namespace Toggle

/-- A hidden panel without content, with the given button texts. -/
def new (showText hideText : String) : Toggle α := { showText, hideText }

/-- The button text: what pressing it does. -/
def label (t : Toggle α) : String := if t.hidden then t.showText else t.hideText

/-- Whether the content has been built. -/
def initialized (t : Toggle α) : Bool := t.content.isSome

/-- Shows a hidden panel or hides a shown one. -/
def toggle (t : Toggle α) : Toggle α := { t with hidden := !t.hidden }

/-- Toggles the panel, running `init` to build its content if it is now shown
and has none yet; otherwise `init` does not run. -/
def toggleWithM [Monad m] (t : Toggle α) (init : Unit → m α) : m (Toggle α) :=
  let t' := t.toggle
  if !t'.hidden && t'.content.isNone then
    return { t' with content := some (← init ()) }
  else pure t'

/-- Toggles the panel, building its content with `init` if it is now shown
and has none yet. -/
def toggleWith (t : Toggle α) (init : Unit → α) : Toggle α :=
  Id.run (t.toggleWithM init)

/-- What can be done with a panel: flip it, flip it with a builder for its
content, or read its button text. -/
inductive Press (m : Type → Type) (α : Type) where
  | toggle
  | toggleWith (init : Unit → m α)
  | label

/-- One press: the panel after it and the button text it answers. -/
def press [Monad m] (t : Toggle α) : Press m α → m (Toggle α × String)
  | .toggle => pure (t.toggle, t.toggle.label)
  | .toggleWith init => do
    let t' ← t.toggleWithM init
    pure (t', t'.label)
  | .label => pure (t, t.label)

/-- Presses in turn: the panel after them and the texts they answered. -/
def session [Monad m] (t : Toggle α) (ps : List (Press m α)) : m (Toggle α × List String) :=
  ps.foldlM (fun (t, labels) p => do
    let (t', l) ← t.press p
    pure (t', labels ++ [l])) (t, [])

@[simp] theorem hidden_new (showText hideText : String) :
    (new showText hideText : Toggle α).hidden = true := rfl

@[simp] theorem content_new (showText hideText : String) :
    (new showText hideText : Toggle α).content = none := rfl

@[simp] theorem hidden_toggle (t : Toggle α) : t.toggle.hidden = !t.hidden := rfl

@[simp] theorem content_toggle (t : Toggle α) : t.toggle.content = t.content := rfl

@[simp] theorem showText_toggle (t : Toggle α) : t.toggle.showText = t.showText := rfl

@[simp] theorem hideText_toggle (t : Toggle α) : t.toggle.hideText = t.hideText := rfl

@[simp] theorem toggle_toggle (t : Toggle α) : t.toggle.toggle = t := by
  cases t
  simp [toggle]

/-- The builder runs when a hidden panel without content is shown. -/
theorem toggleWithM_of_build [Monad m] (t : Toggle α) (init : Unit → m α)
    (hh : t.hidden = true) (hc : t.content = none) :
    t.toggleWithM init = (do
      let c ← init ()
      pure { t.toggle with content := some c }) := by
  simp [toggleWithM, hh, hc]

/-- Otherwise the builder does not run and the panel only flips. -/
theorem toggleWithM_of_not_build [Monad m] (t : Toggle α) (init : Unit → m α)
    (h : ¬(t.hidden = true ∧ t.content = none)) : t.toggleWithM init = pure t.toggle := by
  have : ¬((!t.toggle.hidden && t.toggle.content.isNone) = true) := by
    simpa [Option.isNone_iff_eq_none] using h
  unfold toggleWithM
  rw [if_neg this]

/-- Toggling with a builder flips the panel like a plain toggle. -/
@[simp] theorem hidden_toggleWith (t : Toggle α) (init : Unit → α) :
    (t.toggleWith init).hidden = !t.hidden := by
  by_cases h : t.hidden = true ∧ t.content = none
  · rw [toggleWith, toggleWithM_of_build (m := Id) t init h.1 h.2]
    rfl
  · rw [toggleWith, toggleWithM_of_not_build (m := Id) t init h]
    rfl

/-- Content once built is kept. -/
theorem content_toggleWith_of_isSome (t : Toggle α) (init : Unit → α) (h : t.content.isSome) :
    (t.toggleWith init).content = t.content := by
  have hb : ¬(t.hidden = true ∧ t.content = none) := by
    simp_all [Option.isSome_iff_ne_none]
  rw [toggleWith, toggleWithM_of_not_build (m := Id) t init hb]
  rfl

@[simp] theorem session_nil [Monad m] (t : Toggle α) :
    t.session ([] : List (Press m α)) = pure (t, []) := rfl

theorem session_append_singleton [Monad m] [LawfulMonad m] (t : Toggle α) (ps : List (Press m α))
    (p : Press m α) :
    t.session (ps ++ [p]) =
      t.session ps >>= fun r => r.1.press p >>= fun q => pure (q.1, r.2 ++ [q.2]) := by
  simp [session, List.foldlM_append]

end Toggle

end EntityGraph.Widget
