import Mathlib
import EntityGraph.Text.Bytes
/-! # Byte offsets into UTF-8 text

A text is a list of characters, and its UTF-8 form spends `Char.utf8Size`
bytes on each. The byte offset of the character at index `k` is the size of
the first `k` characters, and these offsets are exactly the character
boundaries of the text (`isValid_iff_utf8Length_take`).

Slicing a text at byte offsets (`dropBytes`, `takeBytes`, `sliceBytes`)
fails at an offset that is not a boundary, as slicing a string slice panics
there (`dropBytes_isSome_iff`); at a boundary it cuts the list of
characters at the matching index (`dropBytes_utf8Length_take`,
`sliceBytes_utf8Length_take`). ASCII lower-casing keeps the size of every
character (`utf8Size_toLower`), so a text and its lower-cased copy have the
same boundaries. -/

namespace EntityGraph.Text

/-! ## Sizes of prefixes -/

theorem utf8Length_take_add (cs : List Char) (k j : Nat) :
    utf8Length (cs.take (k + j)) = utf8Length (cs.take k) + utf8Length ((cs.drop k).take j) := by
  rw [List.take_add, utf8Length_append]

theorem utf8Length_take_add_drop (cs : List Char) (k : Nat) :
    utf8Length (cs.take k) + utf8Length (cs.drop k) = utf8Length cs := by
  rw [← utf8Length_append, List.take_append_drop]

theorem utf8Length_take_le (cs : List Char) (k : Nat) : utf8Length (cs.take k) ≤ utf8Length cs := by
  have := utf8Length_take_add_drop cs k
  omega

/-- One more character at index `k` moves the offset on by its size. -/
theorem utf8Length_take_succ {cs rest : List Char} {k : Nat} {c : Char}
    (h : cs.drop k = c :: rest) : utf8Length (cs.take (k + 1)) = utf8Length (cs.take k) + c.utf8Size := by
  rw [utf8Length_take_add, h]
  simp

/-- The byte offsets of a text that are character boundaries are the sizes
of its prefixes. -/
theorem isValid_iff_utf8Length_take (s : String) (i : Nat) :
    (⟨i⟩ : String.Pos.Raw).IsValid s ↔ ∃ k, i = utf8Length (s.toList.take k) := by
  rw [String.Pos.Raw.isValid_iff_exists_take_toList]
  simp only [← utf8Length_toList, String.toList_ofList]

/-! ## Lower-casing -/

/-- ASCII lower-casing moves `A`..`Z` to `a`..`z`: one byte each. -/
theorem utf8Size_toLower (c : Char) : c.toLower.utf8Size = c.utf8Size := by
  unfold Char.toLower
  split
  · rename_i hup
    have hc : c.val.toNat ≤ 90 := by simpa [UInt32.le_iff_toNat_le] using hup.2
    have hd : ('a'.val - 'A'.val).toNat = 32 := by decide
    rw [Char.utf8Size_eq_one_iff.mpr, Char.utf8Size_eq_one_iff.mpr]
    · rw [UInt32.le_iff_toNat_le]
      simp only [UInt32.reduceToNat]
      omega
    · rw [UInt32.le_iff_toNat_le, UInt32.toNat_add, hd]
      simp only [UInt32.reduceToNat]
      omega
  · rfl

@[simp] theorem utf8Length_map_toLower (cs : List Char) :
    utf8Length (cs.map Char.toLower) = utf8Length cs := by
  induction cs with
  | nil => rfl
  | cons c cs ih => simp [ih, utf8Size_toLower]

/-- A text and its lower-cased copy have their characters at the same offsets. -/
theorem utf8Length_take_map_toLower (cs : List Char) (k : Nat) :
    utf8Length ((cs.map Char.toLower).take k) = utf8Length (cs.take k) := by
  rw [← List.map_take, utf8Length_map_toLower]

/-! ## Slicing at byte offsets -/

/-- The characters after byte offset `i`; nothing where `i` is not a
character boundary or lies past the end. -/
def dropBytes (cs : List Char) (i : Nat) : Option (List Char) :=
  if i = 0 then some cs
  else
    match cs with
    | [] => none
    | c :: cs => if c.utf8Size ≤ i then dropBytes cs (i - c.utf8Size) else none

/-- The characters before byte offset `i`; nothing where `i` is not a
character boundary or lies past the end. -/
def takeBytes (cs : List Char) (i : Nat) : Option (List Char) :=
  if i = 0 then some []
  else
    match cs with
    | [] => none
    | c :: cs => if c.utf8Size ≤ i then (takeBytes cs (i - c.utf8Size)).map (c :: ·) else none

/-- The characters between byte offsets `i` and `j`; nothing where they are
out of order or either is not a character boundary. -/
def sliceBytes (cs : List Char) (i j : Nat) : Option (List Char) :=
  if i ≤ j then (dropBytes cs i).bind fun rest => takeBytes rest (j - i) else none

/-- A size of a prefix after a first character is a nonzero offset into the
text after that character. -/
private theorem cons_offset (c : Char) (cs : List Char) (k : Nat) :
    c.utf8Size + utf8Length (cs.take k) ≠ 0 ∧ c.utf8Size ≤ c.utf8Size + utf8Length (cs.take k) ∧
      c.utf8Size + utf8Length (cs.take k) - c.utf8Size = utf8Length (cs.take k) := by
  have := c.utf8Size_pos
  omega

theorem dropBytes_utf8Length_take (cs : List Char) (k : Nat) :
    dropBytes cs (utf8Length (cs.take k)) = some (cs.drop k) := by
  induction cs generalizing k with
  | nil => simp [dropBytes]
  | cons c cs ih =>
    cases k with
    | zero => simp [dropBytes]
    | succ k =>
      obtain ⟨hne, hle, hsub⟩ := cons_offset c cs k
      rw [List.take_succ_cons, utf8Length_cons, dropBytes, if_neg hne]
      simp only [if_pos hle, hsub, ih, List.drop_succ_cons]

theorem takeBytes_utf8Length_take (cs : List Char) (k : Nat) :
    takeBytes cs (utf8Length (cs.take k)) = some (cs.take k) := by
  induction cs generalizing k with
  | nil => simp [takeBytes]
  | cons c cs ih =>
    cases k with
    | zero => simp [takeBytes]
    | succ k =>
      obtain ⟨hne, hle, hsub⟩ := cons_offset c cs k
      rw [List.take_succ_cons, utf8Length_cons, takeBytes, if_neg hne]
      simp only [if_pos hle, hsub, ih, Option.map_some]

/-- Slicing succeeds only at a boundary, and cuts there. -/
theorem dropBytes_eq_some {cs rest : List Char} {i : Nat} (h : dropBytes cs i = some rest) :
    ∃ k, i = utf8Length (cs.take k) ∧ rest = cs.drop k := by
  induction cs generalizing i with
  | nil =>
    unfold dropBytes at h
    split at h
    · exact ⟨0, by simpa, (Option.some.inj h).symm⟩
    · simp at h
  | cons c cs ih =>
    unfold dropBytes at h
    split at h
    · exact ⟨0, by simpa, (Option.some.inj h).symm⟩
    · simp only at h
      split at h
      · obtain ⟨k, hk, rfl⟩ := ih h
        exact ⟨k + 1, by simp; omega, rfl⟩
      · simp at h

/-- The offset a slice starts at and the size of what it leaves make up
the text. -/
theorem add_utf8Length_of_dropBytes {cs rest : List Char} {i : Nat} (h : dropBytes cs i = some rest) :
    i + utf8Length rest = utf8Length cs := by
  obtain ⟨k, rfl, rfl⟩ := dropBytes_eq_some h
  exact utf8Length_take_add_drop cs k

/-- Slicing a text after a byte offset fails exactly where the offset is not
a character boundary. -/
theorem dropBytes_isSome_iff (s : String) (i : Nat) :
    (dropBytes s.toList i).isSome ↔ (⟨i⟩ : String.Pos.Raw).IsValid s := by
  rw [isValid_iff_utf8Length_take, Option.isSome_iff_exists]
  constructor
  · rintro ⟨rest, h⟩
    obtain ⟨k, hk, -⟩ := dropBytes_eq_some h
    exact ⟨k, hk⟩
  · rintro ⟨k, rfl⟩
    exact ⟨_, dropBytes_utf8Length_take s.toList k⟩

theorem sliceBytes_utf8Length_take (cs : List Char) {a b : Nat} (h : a ≤ b) :
    sliceBytes cs (utf8Length (cs.take a)) (utf8Length (cs.take b)) = some ((cs.drop a).take (b - a)) := by
  have hb : utf8Length (cs.take b) = utf8Length (cs.take a) + utf8Length ((cs.drop a).take (b - a)) := by
    rw [← utf8Length_take_add, Nat.add_sub_cancel' h]
  rw [sliceBytes, if_pos (by omega), dropBytes_utf8Length_take, Option.bind_some, hb,
    Nat.add_sub_cancel_left, takeBytes_utf8Length_take]

end EntityGraph.Text
