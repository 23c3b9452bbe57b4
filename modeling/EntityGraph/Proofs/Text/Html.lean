import Mathlib
import EntityGraph.Text.Html
/-! # Escaping text for HTML

Escaping writes each of `&`, `<`, `>`, `"` and `'` as a character reference
and every other character as it is. The escaped text is therefore made of
plain characters and references (`HtmlEscaped`): it holds none of `<`, `>`,
`"` and `'`, and each `&` in it begins a reference. Reading the references
back from left to right (`unescapeHtml`) gives the text again, whatever it
held, references included (`&amp;` is written `&amp;amp;`), so two texts
with the same escaped form are equal. -/

namespace EntityGraph.Text

/-- The characters that escaping replaces. -/
def htmlSpecials : List Char := ['&', '<', '>', '"', '\'']

/-- The five character references escaping writes. -/
def htmlEntities : List (List Char) :=
  ["&amp;".toList, "&lt;".toList, "&gt;".toList, "&quot;".toList, "&#39;".toList]

/-- Text as escaping writes it: characters that need no escape, and
character references. -/
inductive HtmlEscaped : List Char → Prop
  | nil : HtmlEscaped []
  | plain {c : Char} {cs : List Char} : c ∉ htmlSpecials → HtmlEscaped cs → HtmlEscaped (c :: cs)
  | entity {e cs : List Char} : e ∈ htmlEntities → HtmlEscaped cs → HtmlEscaped (e ++ cs)

theorem toList_htmlChar_of_not_mem {c : Char} (h : c ∉ htmlSpecials) : (htmlChar c).toList = [c] := by
  simp only [htmlSpecials, List.mem_cons, List.not_mem_nil, or_false, not_or] at h
  simp [htmlChar, h]

theorem toList_htmlChar_mem {c : Char} (h : c ∈ htmlSpecials) : (htmlChar c).toList ∈ htmlEntities := by
  simp only [htmlSpecials, List.mem_cons, List.not_mem_nil, or_false] at h
  rcases h with rfl | rfl | rfl | rfl | rfl <;> decide

theorem toList_escapeHtml (s : String) :
    (escapeHtml s).toList = s.toList.flatMap fun c => (htmlChar c).toList := by
  simp [escapeHtml, List.flatMap_map]

theorem htmlEscaped_escapeHtml (s : String) : HtmlEscaped (escapeHtml s).toList := by
  rw [toList_escapeHtml]
  induction s.toList with
  | nil => exact .nil
  | cons c cs ih =>
    rw [List.flatMap_cons]
    by_cases hc : c ∈ htmlSpecials
    · exact .entity (toList_htmlChar_mem hc) ih
    · rw [toList_htmlChar_of_not_mem hc]
      exact .plain hc ih

/-- A reference begins with `&` and holds no other. -/
theorem eq_nil_of_entity_eq {e pre suf : List Char} (he : e ∈ htmlEntities)
    (h : e = pre ++ '&' :: suf) : pre = [] := by
  have htail : '&' ∉ e.tail := by
    simp only [htmlEntities, List.mem_cons, List.not_mem_nil, or_false] at he
    rcases he with rfl | rfl | rfl | rfl | rfl <;> decide
  cases pre with
  | nil => rfl
  | cons p pre =>
    subst h
    simp at htail

/-- Escaped text holds no special character but the `&` of references. -/
theorem HtmlEscaped.not_mem {cs : List Char} (h : HtmlEscaped cs) {c : Char}
    (hc : c ∈ htmlSpecials) (hamp : c ≠ '&') : c ∉ cs := by
  induction h with
  | nil => simp
  | plain hd _ ih =>
    rintro (_ | ⟨_, hmem⟩)
    · exact hd hc
    · exact ih hmem
  | entity he _ ih =>
    have hnot : c ∉ (htmlEntities.flatMap id) := by
      simp only [htmlSpecials, List.mem_cons, List.not_mem_nil, or_false] at hc
      rcases hc with rfl | rfl | rfl | rfl | rfl <;> first | exact absurd rfl hamp | decide
    simp only [List.mem_append, not_or]
    exact ⟨fun hmem => hnot (List.mem_flatMap.mpr ⟨_, he, hmem⟩), ih⟩

/-- Each `&` of escaped text begins a character reference. -/
theorem HtmlEscaped.amp_begins_entity {cs : List Char} (h : HtmlEscaped cs) :
    ∀ pre post, cs = pre ++ '&' :: post → ∃ e ∈ htmlEntities, e <+: '&' :: post := by
  induction h with
  | nil => simp
  | plain hd _ ih =>
    intro pre post hcs
    cases pre with
    | nil =>
      obtain ⟨rfl, -⟩ := List.cons.inj hcs
      simp [htmlSpecials] at hd
    | cons p pre => exact ih pre post (List.cons.inj hcs).2
  | @entity e cs he _ ih =>
    intro pre post hcs
    rcases List.append_eq_append_iff.mp hcs with ⟨a, -, hrest⟩ | ⟨c, he', hpost⟩
    · exact ih a post hrest
    · cases c with
      | nil => exact ih [] post (by simpa using hpost.symm)
      | cons d c =>
        obtain ⟨rfl, rfl⟩ := List.cons.inj hpost
        have hpre := eq_nil_of_entity_eq he he'
        subst hpre
        exact ⟨e, he, cs, by simp [he']⟩

/-- Reads character references back, from left to right. -/
def unescapeHtml : List Char → List Char
  | '&' :: 'a' :: 'm' :: 'p' :: ';' :: rest => '&' :: unescapeHtml rest
  | '&' :: 'l' :: 't' :: ';' :: rest => '<' :: unescapeHtml rest
  | '&' :: 'g' :: 't' :: ';' :: rest => '>' :: unescapeHtml rest
  | '&' :: 'q' :: 'u' :: 'o' :: 't' :: ';' :: rest => '"' :: unescapeHtml rest
  | '&' :: '#' :: '3' :: '9' :: ';' :: rest => '\'' :: unescapeHtml rest
  | c :: rest => c :: unescapeHtml rest
  | [] => []

theorem unescapeHtml_cons_of_ne {c : Char} (hc : c ≠ '&') (rest : List Char) :
    unescapeHtml (c :: rest) = c :: unescapeHtml rest := by
  rw [unescapeHtml.eq_def]
  split <;> simp_all

theorem unescapeHtml_htmlChar (c : Char) (rest : List Char) :
    unescapeHtml ((htmlChar c).toList ++ rest) = c :: unescapeHtml rest := by
  by_cases hc : c ∈ htmlSpecials
  · simp only [htmlSpecials, List.mem_cons, List.not_mem_nil, or_false] at hc
    rcases hc with rfl | rfl | rfl | rfl | rfl <;> simp [htmlChar, unescapeHtml]
  · rw [toList_htmlChar_of_not_mem hc, List.singleton_append]
    exact unescapeHtml_cons_of_ne (by simp_all [htmlSpecials]) rest

/-- Reading the references back gives the text again. -/
theorem unescapeHtml_escapeHtml (s : String) : unescapeHtml (escapeHtml s).toList = s.toList := by
  rw [toList_escapeHtml]
  induction s.toList with
  | nil => rfl
  | cons c cs ih => rw [List.flatMap_cons, unescapeHtml_htmlChar, ih]

theorem escapeHtml_injective : Function.Injective escapeHtml := by
  intro s t h
  have hread := unescapeHtml_escapeHtml s
  rw [h, unescapeHtml_escapeHtml] at hread
  exact String.toList_inj.mp hread.symm

end EntityGraph.Text
