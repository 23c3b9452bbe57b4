import Mathlib
import EntityGraph.Proofs.Page.Search
import EntityGraph.Proofs.Text.Offsets
/-! # The script search over byte offsets

The search for graph scripts runs over the UTF-8 bytes of the page. It
lower-cases a copy of the page, finds `<script` in the copy from a byte
offset `pos`, reads the tag with the byte offset of each character, and cuts
the body out of the page itself at offsets it found in the copy. `pass` is
one pass of that loop, each slice checked as slicing a string slice checks
it (`none` where it would panic), and `passes` is the loop: it ends because
every pass that reads a script element moves `pos` strictly on
(`pass_advances`).

At a character boundary a pass is one round of the search over characters
(`pass_of_none`, `pass_of_unclosed`, `pass_of_element`), since lower-casing
keeps the size of every character, and a round that reads an element hands
on to the boundary after its body. By induction on the characters left
(`searchesFrom`), the search over bytes never panics, every offset it slices
is a boundary of the page and of its lower-cased copy (`Walk`), and the
bodies it cuts out are the graph scripts, at spans of the page that do not
overlap and come in page order (`graphScripts_byte_search`). -/

namespace EntityGraph.Page

open Text

/-- The byte offset of the first character where `pat` begins. -/
def findBytes (pat cs : List Char) : Option Nat :=
  (findSub pat cs).map fun k => utf8Length (cs.take k)

/-- The byte offset of the `>` that ends a tag, its characters read together
with their byte offsets. -/
def tagEndBytes (cs : List Char) : Option Nat :=
  (tagEnd none 0 cs).map fun k => utf8Length (cs.take k)

/-- The byte offsets a pass of the search reads a script element at. -/
structure Round where
  pos : Nat
  tagStart : Nat
  tagLen : Nat
  bodyEnd : Nat
  marked : Bool
deriving DecidableEq, Repr

namespace Round

/-- The `>` that ends the tag. -/
def tagClose (r : Round) : Nat := r.tagStart + r.tagLen

def bodyStart (r : Round) : Nat := r.tagClose + 1

end Round

/-- A pass of the search reads a script element, or ends the search: it
finds no `<script` after `pos`, or one whose tag never ends. -/
inductive Pass
  | element (r : Round)
  | halt (pos : Nat) (tagStart : Option Nat)
deriving DecidableEq, Repr

namespace Pass

def pos : Pass → Nat
  | element r => r.pos
  | halt pos _ => pos

/-- The byte offsets at which the pass slices the page or its lower-cased copy. -/
def offsets : Pass → List Nat
  | element r => [r.pos, r.tagStart, r.tagClose, r.bodyStart, r.bodyEnd]
  | halt pos tagStart => pos :: tagStart.toList

/-- The span of the page whose text the pass returns. -/
def span : Pass → Option (Nat × Nat)
  | element r => if r.marked then some (r.bodyStart, r.bodyEnd) else none
  | halt _ _ => none

/-- `p` reads a script element and `q` starts where its body ends, strictly
after `p` started. -/
def Advances (p q : Pass) : Prop :=
  ∃ r, p = element r ∧ r.pos < r.bodyEnd ∧ q.pos = r.bodyEnd

end Pass

/-- One pass of the search from byte offset `pos` of the page and of its
lower-cased copy `lower`. -/
def pass (page lower : List Char) (pos : Nat) : Option Pass := do
  let rest ← dropBytes lower pos
  match findBytes "<script".toList rest with
  | none => pure (.halt pos none)
  | some found =>
    let tagStart := pos + found
    let fromTag ← dropBytes lower tagStart
    match tagEndBytes fromTag with
    | none => pure (.halt pos (some tagStart))
    | some tagLen =>
      let tag ← sliceBytes lower tagStart (tagStart + tagLen)
      let bodyStart := tagStart + tagLen + 1
      let afterTag ← dropBytes lower bodyStart
      let bodyEnd := ((findBytes "</script".toList afterTag).map (bodyStart + ·)).getD
        (utf8Length lower)
      -- the body is cut out of the page itself, when it is kept
      if isGraphTag tag then discard (sliceBytes page bodyStart bodyEnd)
      pure (.element ⟨pos, tagStart, tagLen, bodyEnd, isGraphTag tag⟩)

theorem findBytes_le {pat cs : List Char} {n : Nat} (h : findBytes pat cs = some n) :
    n ≤ utf8Length cs := by
  obtain ⟨k, -, rfl⟩ := Option.map_eq_some_iff.mp h
  exact utf8Length_take_le cs k

/-- Whether or not it cuts out the body, a pass reads the same element. -/
theorem eq_of_keep {b : Bool} {x : Option Unit} {p q : Pass}
    (h : (if b = true then x.bind (fun _ => pure p) else pure p) = some q) : p = q := by
  split at h
  · obtain ⟨_, -, h⟩ := Option.bind_eq_some_iff.mp h
    exact Option.some.inj h
  · exact Option.some.inj h

/-- A pass that reads a script element ends its body past where it started,
and within the page. -/
theorem pass_advances {page lower : List Char} {pos : Nat} {r : Round}
    (h : pass page lower pos = some (.element r)) :
    pos < r.bodyEnd ∧ r.bodyEnd ≤ utf8Length lower := by
  simp only [pass, Option.bind_eq_bind, Option.bind_eq_some_iff] at h
  obtain ⟨rest, -, h⟩ := h
  split at h
  · simp at h
  · simp only [Option.bind_eq_some_iff] at h
    obtain ⟨fromTag, -, h⟩ := h
    split at h
    · simp at h
    · simp only [Option.bind_eq_some_iff] at h
      obtain ⟨tag, -, afterTag, hafter, h⟩ := h
      cases eq_of_keep h
      have hsize := add_utf8Length_of_dropBytes hafter
      cases hfind : findBytes "</script".toList afterTag with
      | none => simp only [Option.map_none, Option.getD_none]; omega
      | some e =>
        have := findBytes_le hfind
        simp only [Option.map_some, Option.getD_some]
        omega

-- `h` is read by the termination proof, which the linter does not see
set_option linter.unusedVariables false in
/-- The search from byte offset `pos` to its end, pass by pass. -/
def passes (page lower : List Char) (pos : Nat) : Option (List Pass) :=
  match h : pass page lower pos with
  | none => none
  | some (.element r) => (passes page lower r.bodyEnd).map (.element r :: ·)
  | some (.halt p t) => some [.halt p t]
termination_by utf8Length lower - pos
decreasing_by have := pass_advances h; omega

/-- The passes of the search over a page, from its first byte. -/
def searchPasses (html : String) : Option (List Pass) :=
  passes html.toList html.toLower.toList 0

theorem passes_of_element {page lower : List Char} {pos : Nat} {r : Round}
    (h : pass page lower pos = some (.element r)) :
    passes page lower pos = (passes page lower r.bodyEnd).map (.element r :: ·) := by
  rw [passes]
  split <;> simp_all

theorem passes_of_halt {page lower : List Char} {pos p : Nat} {t : Option Nat}
    (h : pass page lower pos = some (.halt p t)) : passes page lower pos = some [.halt p t] := by
  rw [passes]
  split <;> simp_all

/-! ## A pass at a character boundary -/

section Boundary

variable {page lower : List Char} (K : Nat)

theorem findBytes_drop (pat : List Char) :
    (findBytes pat (lower.drop K)).map (utf8Length (lower.take K) + ·) =
      (findSub pat (lower.drop K)).map fun j => utf8Length (lower.take (K + j)) := by
  simp only [findBytes, Option.map_map]
  congr 1
  funext j
  simp [utf8Length_take_add]

/-- Where a body that starts at index `m` ends: at the next `</script`, or at
the end of the page. -/
theorem bodyEnd_drop (pat : List Char) (m : Nat) :
    ((findBytes pat (lower.drop m)).map (utf8Length (lower.take m) + ·)).getD (utf8Length lower) =
      utf8Length (lower.take (m + (findSub pat (lower.drop m)).getD (lower.drop m).length)) := by
  rw [findBytes_drop]
  cases findSub pat (lower.drop m) with
  | none =>
    rw [Option.map_none, Option.getD_none, Option.getD_none, List.take_of_length_le (by simp; omega)]
  | some e => rfl

theorem pass_of_none (hs : findSub "<script".toList (lower.drop K) = none) :
    pass page lower (utf8Length (lower.take K)) = some (.halt (utf8Length (lower.take K)) none) := by
  simp only [pass, Option.bind_eq_bind, dropBytes_utf8Length_take, Option.bind_some, findBytes, hs,
    Option.map_none]
  rfl

theorem pass_of_unclosed {start : Nat} (hs : findSub "<script".toList (lower.drop K) = some start)
    (ht : tagEnd none 0 (lower.drop (K + start)) = none) :
    pass page lower (utf8Length (lower.take K)) =
      some (.halt (utf8Length (lower.take K)) (some (utf8Length (lower.take (K + start))))) := by
  have hstart : utf8Length (lower.take K) + utf8Length ((lower.drop K).take start) =
      utf8Length (lower.take (K + start)) := (utf8Length_take_add lower K start).symm
  simp only [pass, Option.bind_eq_bind, dropBytes_utf8Length_take, Option.bind_some, findBytes, hs,
    Option.map_some, hstart, tagEndBytes, ht, Option.map_none]
  rfl

/-- The body of a page and its lower-cased copy cut at the same offsets. -/
theorem sliceBytes_page (hl : lower = page.map Char.toLower) {a b : Nat} (h : a ≤ b) :
    sliceBytes page (utf8Length (lower.take a)) (utf8Length (lower.take b)) =
      some ((page.drop a).take (b - a)) := by
  rw [hl, utf8Length_take_map_toLower, utf8Length_take_map_toLower]
  exact sliceBytes_utf8Length_take page h

/-- The `>` that ends a tag takes one byte, so the body begins at the next
character. -/
theorem utf8Length_take_tagEnd {m len : Nat} (ht : tagEnd none 0 (lower.drop m) = some len) :
    utf8Length (lower.take (m + len)) + 1 = utf8Length (lower.take (m + len + 1)) := by
  obtain ⟨-, rest, hgt⟩ := tagEnd_eq_some ht
  rw [List.drop_drop, Nat.sub_zero] at hgt
  rw [utf8Length_take_succ hgt]
  rfl

/-- A `<script` at index `K + start` whose tag ends after `len` characters:
the pass reads a script element at the offsets of these indices, and its
body holds `bodyLen` characters. -/
theorem pass_of_element (hl : lower = page.map Char.toLower) {start len bodyLen : Nat}
    (hs : findSub "<script".toList (lower.drop K) = some start)
    (ht : tagEnd none 0 (lower.drop (K + start)) = some len)
    (hb : (findSub "</script".toList (lower.drop (K + start + len + 1))).getD
      (lower.drop (K + start + len + 1)).length = bodyLen) :
    ∃ r, pass page lower (utf8Length (lower.take K)) = some (.element r) ∧
      r.pos = utf8Length (lower.take K) ∧ r.tagStart = utf8Length (lower.take (K + start)) ∧
      r.tagClose = utf8Length (lower.take (K + start + len)) ∧
      r.bodyStart = utf8Length (lower.take (K + start + len + 1)) ∧
      r.bodyEnd = utf8Length (lower.take (K + start + len + 1 + bodyLen)) ∧
      r.marked = isGraphTag ((lower.drop (K + start)).take len) := by
  have hfind : findBytes "<script".toList (lower.drop K) =
      some (utf8Length ((lower.drop K).take start)) := by
    rw [findBytes, hs, Option.map_some]
  have hstart : utf8Length (lower.take K) + utf8Length ((lower.drop K).take start) =
      utf8Length (lower.take (K + start)) := (utf8Length_take_add lower K start).symm
  have htag : tagEndBytes (lower.drop (K + start)) =
      some (utf8Length ((lower.drop (K + start)).take len)) := by
    rw [tagEndBytes, ht, Option.map_some]
  have hclose : utf8Length (lower.take (K + start)) + utf8Length ((lower.drop (K + start)).take len) =
      utf8Length (lower.take (K + start + len)) := (utf8Length_take_add lower (K + start) len).symm
  have hslice : sliceBytes lower (utf8Length (lower.take (K + start)))
      (utf8Length (lower.take (K + start + len))) = some ((lower.drop (K + start)).take len) := by
    simpa using sliceBytes_utf8Length_take lower (Nat.le_add_right (K + start) len)
  have hbody := utf8Length_take_tagEnd ht
  have hend : ((findBytes "</script".toList (lower.drop (K + start + len + 1))).map
      (utf8Length (lower.take (K + start + len + 1)) + ·)).getD (utf8Length lower) =
      utf8Length (lower.take (K + start + len + 1 + bodyLen)) := by
    rw [bodyEnd_drop, hb]
  have hpage := sliceBytes_page hl (Nat.le_add_right (K + start + len + 1) bodyLen)
  rw [Nat.add_sub_cancel_left] at hpage
  refine ⟨⟨utf8Length (lower.take K), utf8Length (lower.take (K + start)),
    utf8Length ((lower.drop (K + start)).take len),
    utf8Length (lower.take (K + start + len + 1 + bodyLen)),
    isGraphTag ((lower.drop (K + start)).take len)⟩, ?_, rfl, rfl, hclose,
    (congrArg (· + 1) hclose).trans hbody, rfl, rfl⟩
  simp only [pass, Option.bind_eq_bind, dropBytes_utf8Length_take, Option.bind_some, hfind, hstart,
    htag, hclose, hslice, hbody, hend, hpage]
  split <;> rfl

end Boundary

/-! ## The whole search -/

/-- What a search from byte offset `pos` over a lower-cased page `lower`
does: it starts at `pos`; every pass but the last reads a script element
and hands on to a pass that starts where that body ends; every offset it
slices is a character boundary of `lower`; and the spans of the bodies it
keeps lie after `pos`, in order and apart. -/
structure Walk (lower : List Char) (pos : Nat) (ps : List Pass) : Prop where
  start : ps.head?.map Pass.pos = some pos
  advance : ps.IsChain Pass.Advances
  boundary : ∀ p ∈ ps, ∀ i ∈ p.offsets, ∃ k, i = utf8Length (lower.take k)
  after : ∀ sp ∈ ps.filterMap Pass.span, pos < sp.1
  disjoint : (ps.filterMap Pass.span).Pairwise fun a b => a.2 < b.1

theorem filterMap_span_element (r : Round) (ps : List Pass) :
    (Pass.element r :: ps).filterMap Pass.span =
      (if r.marked then [(r.bodyStart, r.bodyEnd)] else []) ++ ps.filterMap Pass.span := by
  cases h : r.marked <;> simp [Pass.span, h]

namespace Walk

variable {lower : List Char}

theorem halt {pos : Nat} {t : Option Nat}
    (hb : ∀ i ∈ (Pass.halt pos t).offsets, ∃ k, i = utf8Length (lower.take k)) :
    Walk lower pos [.halt pos t] where
  start := rfl
  advance := List.isChain_singleton _
  boundary := by simpa using hb
  after := by simp [Pass.span]
  disjoint := List.Pairwise.nil

/-- A pass that reads a script element at boundaries and moves on, followed
by a walk from where its body ends. -/
theorem element {r : Round} {ps : List Pass} (hstart : r.pos ≤ r.tagStart)
    (hadv : r.pos < r.bodyEnd) (hb : ∀ i ∈ (Pass.element r).offsets, ∃ k, i = utf8Length (lower.take k))
    (hw : Walk lower r.bodyEnd ps) : Walk lower r.pos (.element r :: ps) where
  start := rfl
  advance := by
    refine List.isChain_cons.mpr ⟨fun q hq => ⟨r, rfl, hadv, ?_⟩, hw.advance⟩
    have := hw.start
    rw [hq, Option.map_some] at this
    exact Option.some.inj this
  boundary := by
    intro p hp
    rcases List.mem_cons.mp hp with rfl | hp
    · exact hb
    · exact hw.boundary p hp
  after := by
    intro sp hsp
    rw [filterMap_span_element, List.mem_append] at hsp
    rcases hsp with hsp | hsp
    · -- the body kept begins after the tag, which begins at or after `pos`
      split at hsp
      · rw [List.mem_singleton.mp hsp]
        show r.pos < r.tagStart + r.tagLen + 1
        omega
      · simp at hsp
    · exact hadv.trans (hw.after sp hsp)
  disjoint := by
    rw [filterMap_span_element]
    split
    · exact List.pairwise_cons.mpr ⟨fun b hb => hw.after b hb, hw.disjoint⟩
    · exact hw.disjoint

end Walk

/-- The search from character index `K` runs to its end without a panic,
walks the page from the offset of `K`, and cuts out the bodies that the
search over characters finds from `K`. -/
def SearchesFrom (page lower : List Char) (K : Nat) : Prop :=
  ∃ ps, passes page lower (utf8Length (lower.take K)) = some ps ∧
    Walk lower (utf8Length (lower.take K)) ps ∧
    (ps.filterMap Pass.span).map (fun sp => sliceBytes page sp.1 sp.2) =
      (scriptBodies (page.drop K) (lower.drop K)).map fun s => some s.toList

section Rounds

variable {page lower : List Char} {K start : Nat}

theorem searchesFrom_of_none (hs : findSub "<script".toList (lower.drop K) = none) :
    SearchesFrom page lower K := by
  refine ⟨_, passes_of_halt (pass_of_none K hs), Walk.halt ?_, ?_⟩
  · simpa [Pass.offsets] using ⟨K, rfl⟩
  · simp [Pass.span, scriptBodies_of_none hs]

theorem searchesFrom_of_unclosed (hs : findSub "<script".toList (lower.drop K) = some start)
    (ht : tagEnd none 0 (lower.drop (K + start)) = none) : SearchesFrom page lower K := by
  refine ⟨_, passes_of_halt (pass_of_unclosed K hs ht), Walk.halt ?_, ?_⟩
  · simp only [Pass.offsets, Option.toList_some, List.mem_cons, List.not_mem_nil, or_false]
    rintro i (rfl | rfl)
    exacts [⟨K, rfl⟩, ⟨K + start, rfl⟩]
  · rw [scriptBodies_of_unclosed hs (by rwa [List.drop_drop])]
    simp [Pass.span]

/-- A round that reads a script element hands the search on to the index
after its body. -/
theorem searchesFrom_of_element (hl : lower = page.map Char.toLower) {len bodyLen : Nat}
    (hs : findSub "<script".toList (lower.drop K) = some start)
    (ht : tagEnd none 0 (lower.drop (K + start)) = some len)
    (hb : (findSub "</script".toList (lower.drop (K + start + len + 1))).getD
      (lower.drop (K + start + len + 1)).length = bodyLen)
    (hnext : SearchesFrom page lower (K + start + len + 1 + bodyLen)) :
    SearchesFrom page lower K := by
  obtain ⟨r, hpass, hpos, htagStart, hclose, hbodyStart, hbodyEnd, hmarked⟩ :=
    pass_of_element K hl hs ht hb
  obtain ⟨ps, hps, hw, hsl⟩ := hnext
  refine ⟨.element r :: ps, ?_, ?_, ?_⟩
  · rw [passes_of_element hpass, hbodyEnd, hps, Option.map_some]
  · rw [← hpos]
    refine Walk.element ?_ (hpos ▸ (pass_advances hpass).1) ?_ (by rw [hbodyEnd]; exact hw)
    · have := utf8Length_take_add lower K start
      omega
    · intro i hi
      simp only [Pass.offsets, List.mem_cons, List.not_mem_nil, or_false] at hi
      rcases hi with rfl | rfl | rfl | rfl | rfl
      exacts [⟨K, hpos⟩, ⟨K + start, htagStart⟩, ⟨K + start + len, hclose⟩,
        ⟨K + start + len + 1, hbodyStart⟩, ⟨_, hbodyEnd⟩]
  · -- the same round over the characters from `K` keeps the same body
    have hK : K + (start + len + 1) = K + start + len + 1 := by omega
    have hK' : K + (start + len + 1 + bodyLen) = K + start + len + 1 + bodyLen := by omega
    have hlen : tagEnd none 0 ((lower.drop K).drop start) = some len := by
      rwa [List.drop_drop]
    have hbody : (findSub "</script".toList ((lower.drop K).drop (start + len + 1))).getD
        ((lower.drop K).drop (start + len + 1)).length = bodyLen := by
      rw [List.drop_drop, hK, hb]
    rw [scriptBodies_of_script hs hlen hbody, filterMap_span_element, List.map_append,
      List.map_append]
    simp only [List.drop_drop, hK, hK']
    rw [hsl, hmarked]
    congr 1
    split
    · have hslice := sliceBytes_page hl (Nat.le_add_right (K + start + len + 1) bodyLen)
      rw [Nat.add_sub_cancel_left] at hslice
      simp [hbodyStart, hbodyEnd, hslice]
    · rfl

end Rounds

/-- From every character index the search runs to its end. -/
theorem searchesFrom {page lower : List Char} (hl : lower = page.map Char.toLower) (K : Nat) :
    SearchesFrom page lower K := by
  -- induction on the characters left: a round that reads an element moves the index on
  induction hn : lower.length - K using Nat.strong_induction_on generalizing K with
  | _ n ih =>
  cases hs : findSub "<script".toList (lower.drop K) with
  | none => exact searchesFrom_of_none hs
  | some start =>
    cases ht : tagEnd none 0 (lower.drop (K + start)) with
    | none => exact searchesFrom_of_unclosed hs ht
    | some len =>
      have hlt : K + start + len < lower.length := by
        obtain ⟨-, rest, hgt⟩ := tagEnd_eq_some ht
        have := congrArg List.length hgt
        simp only [List.length_drop, List.length_cons] at this
        omega
      refine searchesFrom_of_element hl hs ht rfl (ih _ ?_ _ rfl)
      omega

/-- The search for graph scripts over the bytes of a page never panics and
ends: it starts at offset zero, and each pass that reads a script element
hands on to one that starts strictly further on, where that body ends.
Every offset it slices is a character boundary of the page and of its
lower-cased copy, and the bodies it returns are the page's graph scripts,
cut out of spans of the page that do not overlap and come in page order. -/
theorem graphScripts_byte_search (html : String) :
    ∃ ps, searchPasses html = some ps ∧
      ps.head?.map Pass.pos = some 0 ∧ ps.IsChain Pass.Advances ∧
      (∀ p ∈ ps, ∀ i ∈ p.offsets,
        (⟨i⟩ : String.Pos.Raw).IsValid html ∧ (⟨i⟩ : String.Pos.Raw).IsValid html.toLower) ∧
      (ps.filterMap Pass.span).Pairwise (fun a b => a.2 < b.1) ∧
      (ps.filterMap Pass.span).map (fun sp => sliceBytes html.toList sp.1 sp.2) =
        (graphScripts html).map fun s => some s.toList := by
  have hl : html.toLower.toList = html.toList.map Char.toLower := by
    simp only [String.toLower, String.toList_map]
  obtain ⟨ps, hps, hw, hsl⟩ := searchesFrom hl 0
  simp only [List.take_zero, utf8Length_nil, List.drop_zero] at hps hw hsl
  refine ⟨ps, hps, hw.start, hw.advance, ?_, hw.disjoint, ?_⟩
  · -- a boundary of the lower-cased copy is one of the page
    intro p hp i hi
    obtain ⟨k, rfl⟩ := hw.boundary p hp i hi
    refine ⟨(isValid_iff_utf8Length_take html _).mpr ⟨k, ?_⟩,
      (isValid_iff_utf8Length_take _ _).mpr ⟨k, rfl⟩⟩
    rw [hl, utf8Length_take_map_toLower]
  · rw [hsl, graphScripts, hl]

end EntityGraph.Page
