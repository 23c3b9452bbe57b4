/-! What is left of a text after reading some of it from the front, with
the fact that it is no longer than the text was. Readers return it, and a
loop that reads something in every round terminates on its length. -/

namespace EntityGraph

/-- What is left of a text after reading from its front. -/
abbrev Rest (s : List Char) := { r : List Char // r.length ≤ s.length }

/-- Nothing read. -/
def Rest.refl (s : List Char) : Rest s := ⟨s, Nat.le_refl _⟩

/-- Dropping characters leaves no more than there was. -/
theorem Rest.length_drop_le (n : Nat) (s : List Char) : (s.drop n).length ≤ s.length := by
  rw [List.length_drop]
  exact Nat.sub_le _ _

/-- What is left after the first `n` characters. -/
def Rest.skip (s : List Char) (n : Nat) : Rest s := ⟨s.drop n, Rest.length_drop_le n s⟩

/-- Reading more after reading some. -/
def Rest.trans {s : List Char} (r : Rest s) (q : Rest r.1) : Rest s :=
  ⟨q.1, Nat.le_trans q.2 r.2⟩

/-- What is left after the first character, seen from the whole text. -/
def Rest.cons (c : Char) {s : List Char} (r : Rest s) : Rest (c :: s) :=
  ⟨r.1, Nat.le_succ_of_le r.2⟩

/-- What is left after exactly the first character. -/
def Rest.tail (c : Char) (s : List Char) : Rest (c :: s) := Rest.cons c (Rest.refl s)

/-- What is left of a later text, seen from an earlier one. -/
def Rest.lift {s t : List Char} (h : t.length ≤ s.length) (q : Rest t) : Rest s :=
  ⟨q.1, Nat.le_trans q.2 h⟩

/-- The tail of what is left is shorter than the text. -/
theorem Rest.tail_lt {s : List Char} (r : Rest s) {c : Char} {cs : List Char}
    (h : r.1 = c :: cs) : cs.length < s.length := by
  have hr := r.2
  rw [h] at hr
  simp only [List.length_cons] at hr
  omega

/-- What is left after the first character of what is left. -/
def Rest.drop1 {s : List Char} (r : Rest s) {c : Char} {cs : List Char} (h : r.1 = c :: cs) :
    Rest s :=
  ⟨cs, Nat.le_of_lt (r.tail_lt h)⟩

end EntityGraph
