import Mathlib
import EntityGraph.Text.Wrap
/-! # Wrapping a label

`wrap` cuts a text into lines of `w` characters and joins them with line
feeds. The pieces read in order give the text back, every piece before the
last is full, the last holds between one and `w` characters, and there are
`⌈n / w⌉` of them for a text of `n` characters (`chunks_lines`); so the
empty text wraps to itself, and so does every text at width zero
(`wrap_lines`). Characters are Unicode scalar values, the elements of
`String.toList`, whatever their size in bytes. -/

namespace EntityGraph.Text

variable {α : Type} {w : Nat} (hw : 0 < w)

/-- `pieces` cut `cs` into lines of `w` items: read in order they give `cs`
back, every piece before the last has exactly `w` items, the last one
between one and `w`, and there are `⌈|cs| / w⌉` pieces. -/
structure Lines (w : Nat) (cs : List α) (pieces : List (List α)) : Prop where
  flatten_eq : pieces.flatten = cs
  full : ∀ p ∈ pieces.dropLast, p.length = w
  last : ∀ p ∈ pieces.getLast?, 0 < p.length ∧ p.length ≤ w
  length_eq : pieces.length = (cs.length + w - 1) / w

@[simp] theorem chunks_nil : chunks w hw ([] : List α) = [] := by
  rw [chunks]

theorem chunks_cons (x : α) (xs : List α) :
    chunks w hw (x :: xs) = (x :: xs).take w :: chunks w hw ((x :: xs).drop w) := by
  rw [chunks]

theorem chunks_eq_nil_iff {cs : List α} : chunks w hw cs = [] ↔ cs = [] := by
  cases cs with
  | nil => simp
  | cons x xs => simp [chunks_cons]

theorem flatten_chunks (cs : List α) : (chunks w hw cs).flatten = cs := by
  fun_induction chunks w hw cs with
  | case1 => rfl
  | case2 x xs ih => rw [List.flatten_cons, ih, List.take_append_drop]

/-- A piece that another follows is full: the text went on past it. -/
theorem length_of_mem_dropLast_chunks (cs : List α) :
    ∀ p ∈ (chunks w hw cs).dropLast, p.length = w := by
  fun_induction chunks w hw cs with
  | case1 => simp
  | case2 x xs ih =>
    intro p hp
    by_cases hrest : (x :: xs).drop w = []
    · simp [hrest] at hp
    · have hne : chunks w hw ((x :: xs).drop w) ≠ [] := (chunks_eq_nil_iff hw).not.mpr hrest
      rw [List.dropLast_cons_of_ne_nil hne, List.mem_cons] at hp
      rcases hp with rfl | hp
      · have : w < (x :: xs).length := by
          by_contra hle
          exact hrest (List.drop_eq_nil_of_le (by omega))
        simp only [List.length_take]
        omega
      · exact ih p hp

/-- The last piece is what is left once the full pieces are cut off. -/
theorem length_of_mem_getLast?_chunks (cs : List α) :
    ∀ p ∈ (chunks w hw cs).getLast?, 0 < p.length ∧ p.length ≤ w := by
  fun_induction chunks w hw cs with
  | case1 => simp
  | case2 x xs ih =>
    intro p hp
    by_cases hrest : (x :: xs).drop w = []
    · have hle : (x :: xs).length ≤ w := List.drop_eq_nil_iff.mp hrest
      simp only [hrest, chunks_nil, List.getLast?_singleton, Option.mem_def,
        Option.some.injEq] at hp
      subst hp
      rw [List.take_of_length_le hle]
      exact ⟨by simp, hle⟩
    · obtain ⟨y, ys, hys⟩ := List.exists_cons_of_ne_nil ((chunks_eq_nil_iff hw).not.mpr hrest)
      rw [hys, List.getLast?_cons_cons] at hp
      exact ih p (hys ▸ hp)

/-- There are `⌈n / w⌉` pieces of a list of `n` items. -/
theorem length_chunks (cs : List α) : (chunks w hw cs).length = (cs.length + w - 1) / w := by
  fun_induction chunks w hw cs with
  | case1 => simp [Nat.div_eq_of_lt (Nat.sub_lt hw Nat.one_pos)]
  | case2 x xs ih =>
    rw [List.length_cons, ih, List.length_drop]
    by_cases hle : (x :: xs).length ≤ w
    · -- one piece takes the whole list
      have hlen : 1 ≤ (x :: xs).length := by simp
      have hone : ((x :: xs).length + w - 1) / w = 1 := by
        apply Nat.div_eq_of_lt_le <;> omega
      rw [Nat.sub_eq_zero_of_le hle, Nat.zero_add, Nat.div_eq_of_lt (by omega), hone]
    · -- a full piece, then the pieces of the rest
      have hsplit : (x :: xs).length + w - 1 = ((x :: xs).length - w + w - 1) + w := by omega
      rw [hsplit, Nat.add_div_right _ hw]

theorem chunks_lines (cs : List α) : Lines w cs (chunks w hw cs) where
  flatten_eq := flatten_chunks hw cs
  full := length_of_mem_dropLast_chunks hw cs
  last := length_of_mem_getLast?_chunks hw cs
  length_eq := length_chunks hw cs

/-- A text wraps into lines of `w` characters joined by line feeds: the
lines give the text back, each but the last has `w` characters, the last
between one and `w`, and there are `⌈n / w⌉` of them. Width zero leaves
the text whole. -/
theorem wrap_lines (t : String) (w : Nat) :
    (0 < w → ∃ pieces, Lines w t.toList pieces ∧
      wrap t w = "\n".intercalate (pieces.map String.ofList)) ∧ wrap t 0 = t := by
  refine ⟨fun hw => ⟨chunks w hw t.toList, chunks_lines hw t.toList, ?_⟩, ?_⟩
  · rw [wrap, dif_pos hw]
  · rw [wrap, dif_neg (Nat.lt_irrefl 0)]

theorem wrap_lines_umlauts :
    0 < 2 ∧ ∃ pieces, Lines 2 "äöü".toList pieces ∧
      wrap "äöü" 2 = "\n".intercalate (pieces.map String.ofList) :=
  ⟨by decide, (wrap_lines "äöü" 2).1 (by decide)⟩

end EntityGraph.Text
