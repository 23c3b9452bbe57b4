import Mathlib
import EntityGraph.Proofs.Page.Search
/-! # The graph scripts of a page written by the grammar

A page made of fillers and script elements, `f₀ e₁ f₁ … eₙ fₙ`, where an
element is `<script`, attribute text, `>`, a body and `</script>` (the tag
names in any ASCII case), no filler holds `<script` and no body holds
`</script`, ignoring case. The search finds exactly the bodies of the
elements whose tag holds a graph marker, in page order
(`graphScripts_grammar`).

Lower-casing changes no character below `A`, so the quotes and `>` that the
scan of a tag looks for are where they were (`attrText_map_toLower`). The
search finds each `<script` where its element begins, because neither a
filler nor a closing tag can hold one or end in part of one; the body then
ends where its closing tag begins (`scriptBodies_element`). -/

namespace EntityGraph.Page

/-! ## Lower-casing -/

/-- Lower-casing makes no character into one below `A`, and keeps those. -/
theorem toLower_eq_iff_of_lt {c d : Char} (hd : d.toNat < 65) : c.toLower = d ↔ c = d := by
  unfold Char.toLower
  split
  · -- an upper-case letter moves into `a`..`z`, above `d`
    rename_i hup
    have hc : 65 ≤ c.toNat ∧ c.toNat ≤ 90 := by
      simpa [UInt32.le_iff_toNat_le, ← Char.toNat_val] using hup
    constructor
    · intro h
      have := congrArg (fun x : Char => x.val.toNat) h
      simp only [UInt32.toNat_add, Char.toNat_val] at this
      simp at this
      omega
    · rintro rfl
      omega
  · rfl

theorem toLower_ne_of_lt {c d : Char} (hd : d.toNat < 65) (h : c ≠ d) : c.toLower ≠ d :=
  fun heq => h ((toLower_eq_iff_of_lt hd).mp heq)

theorem attrText_map_toLower {a : List Char} (ha : AttrText a) : AttrText (a.map Char.toLower) := by
  induction ha with
  | nil => exact .nil
  | plain h₁ h₂ h₃ _ ih =>
    exact .plain (toLower_ne_of_lt (by decide) h₁) (toLower_ne_of_lt (by decide) h₂)
      (toLower_ne_of_lt (by decide) h₃) ih
  | @quoted q body cs hq hbody _ ih =>
    have hlt : q.toNat < 65 := by rcases hq with rfl | rfl <;> decide
    have hq' : q.toLower = q := (toLower_eq_iff_of_lt hlt).mpr rfl
    have hbody' : q ∉ body.map Char.toLower := by
      simp only [List.mem_map, not_exists, not_and]
      exact fun x hx heq => hbody ((toLower_eq_iff_of_lt hlt).mp heq ▸ hx)
    rw [List.map_cons, List.map_append, List.map_cons, hq']
    exact .quoted hq hbody' ih

/-! ## Script elements -/

/-- A script element as a page writes it: `<script` in any ASCII case,
attribute text, `>`, a body without `</script` in any case, and `</script>`
in any ASCII case. -/
structure ScriptElement where
  openTag : String
  attrs : String
  body : String
  closeTag : String
  openTag_lower : openTag.toList.map Char.toLower = "<script".toList
  closeTag_lower : closeTag.toList.map Char.toLower = "</script>".toList
  attrs_text : AttrText attrs.toList
  body_unclosed : ¬ "</script".toList <:+: body.toList.map Char.toLower

namespace ScriptElement

/-- The element as written in the page. -/
def text (e : ScriptElement) : String := e.openTag ++ e.attrs ++ ">" ++ e.body ++ e.closeTag

/-- Whether the lower-cased tag holds one of the graph markers. -/
def marked (e : ScriptElement) : Bool :=
  markers.any fun m => decide (m <:+: (e.openTag ++ e.attrs).toList.map Char.toLower)

theorem length_openTag (e : ScriptElement) : e.openTag.toList.length = 7 := by
  simpa using congrArg List.length e.openTag_lower

theorem toList_text (e : ScriptElement) :
    e.text.toList = e.openTag.toList ++ (e.attrs.toList ++ '>' :: (e.body.toList ++ e.closeTag.toList)) := by
  simp [text]

end ScriptElement

/-! ## One element -/

theorem isGraphTag_iff (tag : List Char) :
    isGraphTag tag = markers.any fun m => decide (m <:+: tag) := by
  simp only [isGraphTag]
  congr 1
  funext m
  rw [Bool.eq_iff_iff, decide_eq_true_iff, Option.isSome_iff_ne_none, ne_eq,
    findSub_eq_none_iff, not_not]

theorem unbordered_open : Unbordered "<script".toList := by
  rw [show "<script".toList = ['<', 's', 'c', 'r', 'i', 'p', 't'] by decide]
  exact unbordered_cons (by decide)

theorem unbordered_close : Unbordered "</script".toList := by
  rw [show "</script".toList = ['<', '/', 's', 'c', 'r', 'i', 'p', 't'] by decide]
  exact unbordered_cons (by decide)

/-- A closing tag neither holds `<script` nor ends in a part of one. -/
theorem findSub_closeTag (rest : List Char) :
    findSub "<script".toList ("</script>".toList ++ rest) = (findSub "<script".toList rest).map (· + 9) := by
  simp [findSub, List.isPrefixOf, Option.map_map, Function.comp_def]

theorem not_infix_closeTag {rest : List Char} (h : ¬ "<script".toList <:+: rest) :
    ¬ "<script".toList <:+: "</script>".toList ++ rest := by
  rw [← findSub_eq_none_iff] at h ⊢
  rw [findSub_closeTag, h, Option.map_none]

namespace ScriptElement

/-- Lower-cased, an element's tags read `<script` and `</script>`. -/
theorem toList_text_lower (e : ScriptElement) :
    e.text.toList.map Char.toLower = "<script".toList ++ (e.attrs.toList.map Char.toLower ++ '>' ::
      (e.body.toList.map Char.toLower ++ "</script>".toList)) := by
  have hgt : Char.toLower '>' = '>' := by decide
  rw [e.toList_text]
  simp only [List.map_append, List.map_cons, e.openTag_lower, e.closeTag_lower, hgt]

/-- The scan of the lower-cased tag stops at the `>` after the attributes. -/
theorem tagEnd_lower (e : ScriptElement) (rest : List Char) :
    tagEnd none 0 ("<script".toList ++ (e.attrs.toList.map Char.toLower ++ '>' :: rest)) =
      some (7 + e.attrs.toList.length) := by
  have hplain : ∀ c ∈ "<script".toList, c ≠ '>' ∧ c ≠ '"' ∧ c ≠ '\'' := by
    rw [show "<script".toList = ['<', 's', 'c', 'r', 'i', 'p', 't'] by decide]
    simp
  have h7 : "<script".toList.length = 7 := by decide
  rw [tagEnd_append_plain hplain, tagEnd_attrText (attrText_map_toLower e.attrs_text),
    List.length_map, h7, Nat.zero_add]

/-- The lower-cased body ends where the closing tag begins. -/
theorem findSub_body (e : ScriptElement) (rest : List Char) :
    findSub "</script".toList (e.body.toList.map Char.toLower ++ ("</script>".toList ++ rest)) =
      some e.body.toList.length := by
  rw [findSub_append_eq_some_length unbordered_close e.body_unclosed
    (List.prefix_append_of_prefix (by decide)), List.length_map]

/-- The element after the `>` of its tag: the body and the closing tag. -/
theorem drop_text (e : ScriptElement) (rest : List Char) :
    (e.text.toList ++ rest).drop (7 + e.attrs.toList.length + 1) =
      e.body.toList ++ (e.closeTag.toList ++ rest) := by
  have hsplit : e.text.toList ++ rest =
      (e.openTag.toList ++ e.attrs.toList ++ ['>']) ++ (e.body.toList ++ (e.closeTag.toList ++ rest)) := by
    rw [e.toList_text]
    simp only [List.append_assoc, List.cons_append, List.nil_append]
  have hlen : (e.openTag.toList ++ e.attrs.toList ++ ['>']).length = 7 + e.attrs.toList.length + 1 := by
    simp only [List.length_append, e.length_openTag, List.length_singleton]
  rw [hsplit, List.drop_left' hlen]

end ScriptElement

/-- After a filler without `<script`, the search takes the element's body (when
its tag is marked) and goes on from the element's closing tag. -/
theorem scriptBodies_element (e : ScriptElement) {f : List Char}
    (hf : ¬ "<script".toList <:+: f.map Char.toLower) (rest : List Char) :
    scriptBodies (f ++ (e.text.toList ++ rest)) ((f ++ (e.text.toList ++ rest)).map Char.toLower) =
      (if e.marked then [e.body] else []) ++
        scriptBodies (e.closeTag.toList ++ rest) ((e.closeTag.toList ++ rest).map Char.toLower) := by
  -- the search cuts the page where the element begins, after the `>` of its
  -- tag and where its closing tag begins
  have hlower : (f ++ (e.text.toList ++ rest)).map Char.toLower =
      f.map Char.toLower ++ ("<script".toList ++ (e.attrs.toList.map Char.toLower ++ '>' ::
        (e.body.toList.map Char.toLower ++ ("</script>".toList ++ rest.map Char.toLower)))) := by
    rw [List.map_append, List.map_append, e.toList_text_lower]
    simp only [List.append_assoc, List.cons_append]
  have hfrom : ∀ cs : List Char, (f ++ cs).drop f.length = cs := fun cs => List.drop_left' rfl
  have hafter : (f ++ (e.text.toList ++ rest)).drop (f.length + (7 + e.attrs.toList.length) + 1) =
      e.body.toList ++ (e.closeTag.toList ++ rest) := by
    rw [Nat.add_assoc, ← List.drop_drop, hfrom, e.drop_text]
  have hstart : findSub "<script".toList ((f ++ (e.text.toList ++ rest)).map Char.toLower) =
      some f.length := by
    rw [hlower, findSub_append_eq_some_length unbordered_open hf (List.prefix_append _ _),
      List.length_map]
  have hlen : tagEnd none 0 (((f ++ (e.text.toList ++ rest)).map Char.toLower).drop f.length) =
      some (7 + e.attrs.toList.length) := by
    rw [hlower, List.drop_left' (List.length_map _), e.tagEnd_lower]
  have hbody : (findSub "</script".toList
      (((f ++ (e.text.toList ++ rest)).map Char.toLower).drop (f.length + (7 + e.attrs.toList.length) + 1))).getD
      (((f ++ (e.text.toList ++ rest)).map Char.toLower).drop
        (f.length + (7 + e.attrs.toList.length) + 1)).length = e.body.toList.length := by
    rw [← List.map_drop, hafter, List.map_append, List.map_append, e.closeTag_lower, e.findSub_body]
    rfl
  have htag : (((f ++ (e.text.toList ++ rest)).map Char.toLower).drop f.length).take
      (7 + e.attrs.toList.length) = (e.openTag ++ e.attrs).toList.map Char.toLower := by
    have h7 : "<script".toList.length = 7 := by decide
    rw [hlower, List.drop_left' (List.length_map _), ← List.append_assoc,
      List.take_left' (by rw [List.length_append, h7, List.length_map]), String.toList_append,
      List.map_append, e.openTag_lower]
  have hnext : (f ++ (e.text.toList ++ rest)).drop
      (f.length + (7 + e.attrs.toList.length) + 1 + e.body.toList.length) = e.closeTag.toList ++ rest := by
    rw [← List.drop_drop, hafter, List.drop_left' rfl]
  rw [scriptBodies_of_script hstart hlen hbody, htag, ← List.map_drop, hnext, hafter,
    List.take_left' rfl, String.ofList_toList, isGraphTag_iff]
  rfl

/-! ## The whole page -/

/-- The elements and fillers of a page after its first filler, written out. -/
def elementsText (parts : List (ScriptElement × String)) : List Char :=
  parts.flatMap fun p => p.1.text.toList ++ p.2.toList

/-- After a filler without `<script`, the search finds the bodies of the marked
elements among those that follow, each followed by a filler without `<script`. -/
theorem scriptBodies_elements (parts : List (ScriptElement × String))
    (hfill : ∀ p ∈ parts, ¬ "<script".toList <:+: p.2.toList.map Char.toLower) :
    ∀ f : List Char, ¬ "<script".toList <:+: f.map Char.toLower →
      scriptBodies (f ++ elementsText parts) ((f ++ elementsText parts).map Char.toLower) =
        (parts.filter fun p => p.1.marked).map fun p => p.1.body := by
  induction parts with
  | nil =>
    intro f hf
    rw [elementsText, List.flatMap_nil, List.append_nil]
    exact scriptBodies_of_none ((findSub_eq_none_iff _ _).mpr hf)
  | cons p parts ih =>
    intro f hf
    -- after the element the search goes on from its closing tag, then the filler
    have hnext : ¬ "<script".toList <:+: (p.1.closeTag.toList ++ p.2.toList).map Char.toLower := by
      rw [List.map_append, p.1.closeTag_lower]
      exact not_infix_closeTag (hfill p List.mem_cons_self)
    have hrest := ih (fun q hq => hfill q (List.mem_cons_of_mem p hq)) _ hnext
    rw [elementsText, List.flatMap_cons, List.append_assoc, scriptBodies_element p.1 hf,
      ← List.append_assoc p.1.closeTag.toList, ← elementsText, hrest]
    cases hm : p.1.marked <;> simp [hm]

/-- A page written by the grammar: a first filler, then elements each followed
by a filler, no filler holding `<script` and no body `</script` in any case.
Its graph scripts are the bodies of the elements whose lower-cased tag holds a
graph marker, in page order. -/
theorem graphScripts_grammar (f₀ : String) (parts : List (ScriptElement × String))
    (hf₀ : ¬ "<script".toList <:+: f₀.toList.map Char.toLower)
    (hfill : ∀ p ∈ parts, ¬ "<script".toList <:+: p.2.toList.map Char.toLower) :
    graphScripts (f₀ ++ String.join (parts.map fun p => p.1.text ++ p.2)) =
      (parts.filter fun p => p.1.marked).map fun p => p.1.body := by
  have htext : (f₀ ++ String.join (parts.map fun p => p.1.text ++ p.2)).toList =
      f₀.toList ++ elementsText parts := by
    simp [elementsText, List.flatMap_map]
  rw [graphScripts, htext]
  exact scriptBodies_elements parts hfill _ hf₀

/-- A `>` inside quotes stays in its tag, an upper-case element is found as
well, and only the marked body is kept. -/
theorem graphScripts_quoted_angle :
    graphScripts ("" ++ String.join ([
      (ScriptElement.mk "<script" " title=\"a>b\" data-render-graph=true" "\x7b\x7d" "</script>"
        (by decide) (by decide)
        (by
          rw [show (" title=\"a>b\" data-render-graph=true").toList = " title=".toList ++
            '"' :: ("a>b".toList ++ '"' :: (" data-render-graph=true".toList ++ [])) by decide]
          exact AttrText.plain_append (by decide) (.quoted (.inl rfl) (by decide)
            (AttrText.plain_append (by decide) .nil)))
        (by decide), "\n"),
      (ScriptElement.mk "<SCRIPT" " src=x" "[]" "</SCRIPT>" (by decide) (by decide)
        (by
          rw [show " src=x".toList = " src=x".toList ++ [] by simp]
          exact AttrText.plain_append (by decide) .nil)
        (by decide), "")].map fun p : ScriptElement × String => p.1.text ++ p.2)) =
      ["\x7b\x7d"] := by
  rw [graphScripts_grammar "" _ (by decide) (by decide)]
  decide

end EntityGraph.Page
