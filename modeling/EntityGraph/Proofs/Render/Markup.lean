import Mathlib
import EntityGraph.Proofs.Text.Html
import EntityGraph.Render.Legend
import EntityGraph.Progress.Report
/-! # The markup of the legend and of the loading indicator

The legend of a prefix map is a table: the header row, one row per prefix
with the alias and the prefix escaped in two cells, and the closing tag. An
escaped cell holds no `<`, so each cell ends at the next `<` and the table
reads back row by row (`readLegend_legend`): one row per prefix, in the map's
order, each decoding to the alias and the prefix.

The loading indicator writes the stage escaped between fixed `<code>` tags,
so the tags of its markup are the template's whatever the stage says
(`openTags_html?`): a stage cannot add markup. -/

namespace EntityGraph

namespace Text

/-- Reads a table cell: the text up to the next `<`, and the text from it. -/
def readCell (cs : List Char) : List Char × List Char :=
  (cs.takeWhile (· != '<'), cs.dropWhile (· != '<'))

theorem readCell_append {x : List Char} (hx : '<' ∉ x) (rest : List Char) :
    readCell (x ++ '<' :: rest) = (x, '<' :: rest) := by
  have hall : ∀ c ∈ x, (c != '<') = true := fun c hc => by
    simpa using fun h : c = '<' => hx (h ▸ hc)
  simp [readCell, List.takeWhile_append_of_pos hall, List.dropWhile_append_of_pos hall]

theorem lt_not_mem_escapeHtml (s : String) : '<' ∉ (escapeHtml s).toList :=
  (htmlEscaped_escapeHtml s).not_mem (by simp [htmlSpecials]) (by decide)

/-- The tags of a text: after each `<`, the characters up to the next `>`. -/
def openTags : List Char → List (List Char)
  | [] => []
  | '<' :: cs => cs.takeWhile (· != '>') :: openTags cs
  | _ :: cs => openTags cs

theorem openTags_cons_of_ne {c : Char} (hc : c ≠ '<') (cs : List Char) :
    openTags (c :: cs) = openTags cs := by
  rw [openTags.eq_def]
  split <;> simp_all

theorem openTags_append_of_not_mem {x : List Char} (hx : '<' ∉ x) (rest : List Char) :
    openTags (x ++ rest) = openTags rest := by
  induction x with
  | nil => rfl
  | cons c x ih =>
    rw [List.cons_append, openTags_cons_of_ne (fun h => hx (h ▸ List.mem_cons_self))]
    exact ih (fun h => hx (List.mem_cons_of_mem c h))

/-- A decimal numeral is digits only. -/
theorem lt_not_mem_toDigits (n : Nat) : '<' ∉ Nat.toDigits 10 n := fun h =>
  absurd (Nat.isDigit_of_mem_toDigits (by decide) (by decide) h) (by decide)

end Text

namespace PrefixMap

/-- Reads one row of a legend: its two cells as written, and the text after
the row. -/
def readRow (cs : List Char) : Option (List Char × List Char × List Char) := do
  let r ← cs.dropPrefix? "<tr><td>".toList
  let r' ← (Text.readCell r).2.dropPrefix? "</td><td>".toList
  let r'' ← (Text.readCell r').2.dropPrefix? "</td></tr>\n".toList
  pure ((Text.readCell r).1, (Text.readCell r').1, r'')

theorem length_le_of_dropPrefix? {cs p r : List Char} (h : cs.dropPrefix? p = some r) :
    r.length + p.length = cs.length := by
  obtain ⟨p', rfl, hp⟩ := List.dropPrefix?_eq_some_iff.mp h
  rw [beq_iff_eq.mp hp, List.length_append, Nat.add_comm]

theorem length_lt_of_readRow {cs a p r : List Char} (h : readRow cs = some (a, p, r)) :
    r.length < cs.length := by
  simp only [readRow, Option.bind_eq_bind, Option.bind_eq_some_iff, Option.pure_def,
    Option.some.injEq, Prod.mk.injEq] at h
  obtain ⟨r₁, h₁, r₂, h₂, r₃, h₃, -, -, rfl⟩ := h
  have l₁ := length_le_of_dropPrefix? h₁
  have l₂ := length_le_of_dropPrefix? h₂
  have l₃ := length_le_of_dropPrefix? h₃
  have d₁ := List.length_dropWhile_le (· != '<') r₁
  have d₂ := List.length_dropWhile_le (· != '<') r₂
  have hpos : 0 < "<tr><td>".toList.length := by decide
  simp only [Text.readCell] at l₂ l₃
  omega

/-- Reads the rows of a legend up to the closing tag that ends it, decoding
each cell. -/
def readRows (cs : List Char) : Option (List (String × String)) :=
  if cs = "</table>\n".toList then some []
  else
    match _hrow : readRow cs with
    | some (a, p, r) =>
      (readRows r).map fun rows =>
        (String.ofList (Text.unescapeHtml a), String.ofList (Text.unescapeHtml p)) :: rows
    | none => none
termination_by cs.length
decreasing_by exact length_lt_of_readRow _hrow

/-- Reads a legend: the header row, then the rows as pairs of decoded cells. -/
def readLegend (text : String) : Option (List (String × String)) :=
  (text.toList.dropPrefix? "<table>\n<tr><th>NS</th><th>URI</th></tr>\n".toList).bind readRows

theorem readRow_legendRow (entry : String × String) (rest : List Char) :
    readRow ((legendRow entry).toList ++ rest) =
      some ((Text.escapeHtml entry.2).toList, (Text.escapeHtml entry.1).toList, rest) := by
  have ha := Text.lt_not_mem_escapeHtml entry.2
  have hp := Text.lt_not_mem_escapeHtml entry.1
  simp [readRow, legendRow, List.dropPrefix?, Text.readCell_append ha, Text.readCell_append hp]

theorem readRows_legendRows (entries : List (String × String)) :
    readRows ((entries.map legendRow).flatMap String.toList ++ "</table>\n".toList) =
      some (entries.map fun e => (e.2, e.1)) := by
  induction entries with
  | nil => rw [readRows]; simp
  | cons e entries ih =>
    rw [readRows, if_neg (by simp [legendRow]), List.map_cons, List.flatMap_cons, List.append_assoc]
    split
    · next a p r hrow =>
      rw [readRow_legendRow] at hrow
      obtain ⟨rfl, rfl, rfl⟩ : _ = a ∧ _ = p ∧ _ = r := by
        simpa only [Option.some.injEq, Prod.mk.injEq] using hrow
      rw [ih]
      simp [Text.unescapeHtml_escapeHtml]
    · next hrow => simp [readRow_legendRow] at hrow

/-- The legend reads back as the map's aliases and prefixes, one row per
prefix in the map's order. -/
theorem readLegend_legend (m : PrefixMap) :
    readLegend m.legend = some (m.entries.map fun e => (e.2, e.1)) := by
  have htext : m.legend.toList = "<table>\n<tr><th>NS</th><th>URI</th></tr>\n".toList ++
      ((m.entries.map legendRow).flatMap String.toList ++ "</table>\n".toList) := by
    unfold legend
    rw [String.toList_append, String.toList_append, String.toList_join, List.append_assoc]
  unfold readLegend
  rw [htext, List.dropPrefix?_append_of_beq _ (beq_self_eq_true _), Option.bind_some]
  exact readRows_legendRows m.entries

end PrefixMap

namespace Progress

/-- The indicator keeps what it shows exactly for a report that is not done,
has no total and names no stage. -/
theorem html?_status_eq_none_iff (r : Report) :
    r.status.html? = none ↔ r.done = false ∧ r.total = 0 ∧ r.stage = "" := by
  unfold Report.status
  split
  · simp_all [Status.html?]
  · split
    · simp_all [Status.html?]
    · split
      · simp_all [Status.html?]
      · simp_all [Status.html?]

/-- The tags of the indicator's markup are those of its template: none when
loading finished, two `<code>` elements for a counted stage and one for a
stage alone, whatever the stage and the counts. -/
theorem openTags_html? (r : Report) (html : String) (h : r.status.html? = some html) :
    Text.openTags html.toList =
      if r.done then []
      else if r.total ≠ 0 then ["code".toList, "/code".toList, "code".toList, "/code".toList]
      else ["code".toList, "/code".toList] := by
  have hcount : ∀ c t : UInt64, '<' ∉ (if c == t then toString c.toNat
      else toString c.toNat ++ "/" ++ toString t.toNat).toList := by
    intro c t
    split <;> simp [Text.lt_not_mem_toDigits]
  unfold Report.status at h
  split at h
  · simp_all [Status.html?]
    subst h
    decide
  · split at h
    · simp only [Status.html?, Option.some.injEq] at h
      subst h
      simp_all [Text.openTags_append_of_not_mem, Text.lt_not_mem_escapeHtml, Text.openTags]
    · split at h
      · simp only [Status.html?, Option.some.injEq] at h
        subst h
        simp_all [Text.openTags_append_of_not_mem, Text.lt_not_mem_escapeHtml, Text.openTags]
      · simp [Status.html?] at h

end Progress

/-- Escaped text holds none of `<`, `>`, `"` and `'`, each `&` in it begins a
character reference, and reading the references back from left to right
gives the text again, so escaping is injective. The legend of any prefix map
reads back as one row per prefix in the map's order, its cells decoding to
the alias and the prefix. The loading indicator keeps what it shows exactly
for a report not done, with no total and no stage; otherwise the tags of its
markup are the template's, whatever the stage says. -/
theorem escaped_markup_reads_back :
    (∀ s : String,
      (∀ c ∈ ['<', '>', '"', '\''], c ∉ (Text.escapeHtml s).toList) ∧
      (∀ pre post, (Text.escapeHtml s).toList = pre ++ '&' :: post →
        ∃ e ∈ Text.htmlEntities, e <+: '&' :: post) ∧
      Text.unescapeHtml (Text.escapeHtml s).toList = s.toList) ∧
    Function.Injective Text.escapeHtml ∧
    (∀ m : PrefixMap, PrefixMap.readLegend m.legend = some (m.entries.map fun e => (e.2, e.1))) ∧
    (∀ r : Progress.Report,
      (r.status.html? = none ↔ r.done = false ∧ r.total = 0 ∧ r.stage = "") ∧
      ∀ html, r.status.html? = some html → Text.openTags html.toList =
        if r.done then []
        else if r.total ≠ 0 then ["code".toList, "/code".toList, "code".toList, "/code".toList]
        else ["code".toList, "/code".toList]) := by
  refine ⟨fun s => ⟨fun c hc => ?_, ?_, Text.unescapeHtml_escapeHtml s⟩, Text.escapeHtml_injective,
    PrefixMap.readLegend_legend, fun r => ⟨Progress.html?_status_eq_none_iff r,
      Progress.openTags_html? r⟩⟩
  · -- the markup characters other than `&` are all escaped
    have hspecial : c ∈ Text.htmlSpecials := by
      simp only [List.mem_cons, List.not_mem_nil, or_false] at hc
      rcases hc with rfl | rfl | rfl | rfl <;> decide
    exact (Text.htmlEscaped_escapeHtml s).not_mem hspecial (by rintro rfl; simp at hc)
  · exact (Text.htmlEscaped_escapeHtml s).amp_begins_entity

end EntityGraph
