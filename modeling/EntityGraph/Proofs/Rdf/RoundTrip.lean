import Mathlib
import EntityGraph.Proofs.Json.RoundTrip
import EntityGraph.Rdf.Read

/-! # Written statements read back

The compact text of statements as a value, an object with the `data`
member first and the `triples` member second, reads back through the
streaming reader of statements as the same statements (`ofJsonText_render`),
as long as each literal is a value that reading builds and its brackets
leave room in the depth budget for the three levels around it: the object,
the `data` array and the literal triple's own array. A triple reads back
from its three strings, and a literal triple from its array of three or
four items, by way of reading it as a value first. -/

namespace EntityGraph.Json

/-! ## Records -/

theorem Step.out_next {s : List Char} {x : Step α s} {f : α → Reader β} {a : α} {r : List Char}
    (h : Step.out x = .ok (a, r)) : Step.out (x.next f) = Step.out (f a r) := by
  obtain ⟨_, hx⟩ := Step.out_eq_ok_iff.1 h
  simp [Step.next, hx]

theorem readBracketed_seq (d : Nat) (expected : String) (inside : Nat → Reader α)
    (ifMap : Option (Nat → Reader α)) (t : List Char) :
    Step.out (readBracketed (d + 2) expected (some inside) ifMap ('[' :: t)) =
      Step.out (enclosed closeSeq (inside (d + 1)) t) := by
  simp [readBracketed, blank_cons (by decide : isBlank '[' = false), Rest.refl]

theorem readBracketed_map (d : Nat) (expected : String) (ifSeq : Option (Nat → Reader α))
    (inside : Nat → Reader α) (t : List Char) :
    Step.out (readBracketed (d + 2) expected ifSeq (some inside) ('\x7b' :: t)) =
      Step.out (enclosed closeMap (inside (d + 1)) t) := by
  simp [readBracketed, blank_cons (by decide : isBlank '\x7b' = false), Rest.refl]

theorem readString_jsonQuote (s : String) (rest : List Char) :
    Step.out (readString ((jsonQuote s).toList ++ rest)) = .ok (s, rest) := by
  rw [toList_jsonQuote, List.cons_append, List.append_assoc, List.singleton_append]
  simp [readString, blank_cons (by decide : isBlank '"' = false), Rest.refl]
  rw [string_jsonQuote]

section Items

variable {u : List Char} (hu : StartsItem u) (rest : List Char)
include hu

theorem requiredItem_first (index : Nat) (expected : String) (read : Reader α) :
    Step.out (requiredItem true index expected read (u ++ rest)) = Step.out (read (u ++ rest)) := by
  obtain ⟨c, cs, rfl, hc, hc'⟩ := hu
  rw [List.cons_append]
  simp [requiredItem, peekItem, blank_cons hc, Rest.refl]
  cases read (c :: (cs ++ rest)) <;> rfl

theorem requiredItem_comma (index : Nat) (expected : String) (read : Reader α) :
    Step.out (requiredItem false index expected read (',' :: (u ++ rest))) =
      Step.out (read (u ++ rest)) := by
  obtain ⟨c, cs, rfl, hc, hc'⟩ := hu
  rw [List.cons_append]
  simp [requiredItem, peekItem, blank_cons (by decide : isBlank ',' = false), blank_cons hc,
    Rest.refl]
  cases read (c :: (cs ++ rest)) <;> rfl

end Items

/-- A string item of a record reads back. -/
theorem requiredItem_first_string (index : Nat) (expected : String) (s : String)
    (rest : List Char) :
    Step.out (requiredItem true index expected readString ((jsonQuote s).toList ++ rest)) =
      .ok (s, rest) := by
  rw [requiredItem_first (startsItem_jsonQuote s), readString_jsonQuote]

theorem requiredItem_comma_string (index : Nat) (expected : String) (s : String)
    (rest : List Char) :
    Step.out (requiredItem false index expected readString (',' :: ((jsonQuote s).toList ++ rest))) =
      .ok (s, rest) := by
  rw [requiredItem_comma (startsItem_jsonQuote s), readString_jsonQuote]

theorem memberValue_colon (read : Reader α) (t : List Char) :
    Step.out (memberValue read (':' :: t)) = Step.out (read t) := by
  simp only [memberValue, colon, blank_cons (by decide : isBlank ':' = false), Rest.refl]
  exact Step.out_map_trans _ _

/-- An array of items of one kind reads back when each item does. -/
theorem readSeqOf_render {item : Nat → Reader α} {g : α → Json} {xs : List α} (d : Nat)
    (hxs : ∀ x ∈ xs, ReadsBack (item (d + 1)) (g x) x) (rest : List Char) :
    Step.out (readSeqOf item (d + 2) ((Json.arr (xs.map g)).render.toList ++ rest)) =
      .ok (xs, rest) := by
  have htext : (Json.arr (xs.map g)).render.toList =
      '[' :: ((renderItems (xs.map g)).toList ++ [']']) := by
    simp [Json.render]
  rw [htext, List.cons_append, List.append_assoc, List.singleton_append, readSeqOf,
    readBracketed_seq, enclosed_closeSeq (items_render hxs rest)]

end EntityGraph.Json

namespace EntityGraph.Rdf

open Json

/-! ## Triples -/

theorem tripleItems_render (t : Triple) (rest : List Char) :
    Step.out (tripleItems ((jsonQuote t.subject).toList ++ ',' :: ((jsonQuote t.predicate).toList ++
        ',' :: ((jsonQuote t.object).toList ++ ']' :: rest)))) = .ok (t, ']' :: rest) := by
  unfold tripleItems
  rw [Step.out_next (requiredItem_first_string _ _ _ _),
    Step.out_next (requiredItem_comma_string _ _ _ _),
    Step.out_next (requiredItem_comma_string _ _ _ _)]
  rfl

theorem readsBack_triple (d : Nat) (t : Triple) : ReadsBack (readTriple (d + 2)) t.toJson t := by
  have htext : ∀ rest, t.toJson.render.toList ++ rest = '[' :: ((jsonQuote t.subject).toList ++
      ',' :: ((jsonQuote t.predicate).toList ++ ',' :: ((jsonQuote t.object).toList ++
        ']' :: rest))) := by
    simp [Triple.toJson, Json.render, renderItems]
  refine ⟨⟨'[', _, by simpa using htext [], by decide, by decide⟩, fun rest _ => ?_⟩
  rw [htext, readTriple, readBracketed_seq, enclosed_closeSeq (tripleItems_render t rest)]

/-! ## Literal triples -/

/-- A literal triple's array reads as it: a tag as a fourth string, none as
three items. -/
theorem literalTripleOf_toJson (t : LiteralTriple) : literalTripleOf? t.toJson = some t := by
  obtain ⟨s, p, v, tag⟩ := t
  cases tag <;> rfl

theorem canonical_toJson {exact : Float → Prop} {t : LiteralTriple} (h : t.literal.Canonical exact) :
    t.toJson.Canonical exact := by
  obtain ⟨s, p, v, tag⟩ := t
  cases tag with
  | none => exact .arr_cons (.str s) (.arr_cons (.str p) (.arr_cons h .arr_nil))
  | some tag =>
    exact .arr_cons (.str s) (.arr_cons (.str p) (.arr_cons h (.arr_cons (.str tag) .arr_nil)))

theorem depth_toJson (t : LiteralTriple) : t.toJson.depth = t.literal.depth + 1 := by
  obtain ⟨s, p, v, tag⟩ := t
  cases tag <;> simp [LiteralTriple.toJson, depth, depthItems]

/-- A literal triple reads back when its array reads back as a value. -/
theorem readsBack_literalTriple {d : Nat} {t : LiteralTriple}
    (h : ReadsBack (readValue d) t.toJson t.toJson) : ReadsBack (readLiteralTriple d) t.toJson t := by
  refine ⟨h.head, fun rest hr => ?_⟩
  simp only [readLiteralTriple]
  rw [Step.out_next (h.read_append rest hr), literalTripleOf_toJson]
  rfl

/-! ## Statements -/

theorem statementMember_triples (d : Nat) (ls : Option (List LiteralTriple)) (t : List Char) :
    Step.out (statementMember d (none, ls) "triples" (':' :: t)) =
      (Step.out (readSeqOf readTriple d t)).map fun p => ((some p.1, ls), p.2) := by
  simp only [statementMember, if_true, fieldOnce]
  rw [Step.out_map_value _ (fun v => (some v, ls)) _ (fun _ _ => ⟨rfl, rfl⟩), memberValue_colon]

theorem statementMember_data (d : Nat) (ts : Option (List Triple)) (t : List Char) :
    Step.out (statementMember d (ts, none) "data" (':' :: t)) =
      (Step.out (readSeqOf readLiteralTriple d t)).map fun p => ((ts, some p.1), p.2) := by
  have hne : ("data" = "triples") = False := by simp
  simp only [statementMember, hne, if_false, if_true, fieldOnce]
  rw [Step.out_map_value _ (fun v => (ts, some v)) _ (fun _ _ => ⟨rfl, rfl⟩), memberValue_colon]

/-- The members of the statements' object, `data` first, read back as the
statements. -/
theorem statementMembers_render {ts : List Triple} {ls : List LiteralTriple}
    (hlit : ∀ t ∈ ls, ReadsBack (readLiteralTriple 126) t.toJson t) (rest : List Char) :
    Step.out (statementMembers 127 (memberText ("data", .arr (ls.map LiteralTriple.toJson)) ++
        ',' :: (memberText ("triples", .arr (ts.map Triple.toJson)) ++ '\x7d' :: rest))) =
      .ok (⟨ts, ls⟩, '\x7d' :: rest) := by
  have hdata : Step.out (readSeqOf readLiteralTriple 127
      ((Json.arr (ls.map LiteralTriple.toJson)).render.toList ++
        ',' :: (memberText ("triples", .arr (ts.map Triple.toJson)) ++ '\x7d' :: rest))) =
      .ok (ls, ',' :: (memberText ("triples", .arr (ts.map Triple.toJson)) ++ '\x7d' :: rest)) :=
    readSeqOf_render 125 hlit _
  have htriples :=
    readSeqOf_render 125 (fun t (_ : t ∈ ts) => readsBack_triple 124 t) ('\x7d' :: rest)
  unfold statementMembers
  rw [Step.out_map_value _ (fun p => (⟨p.1.getD [], p.2.getD []⟩ : Statements)) _
    (fun _ _ => ⟨rfl, rfl⟩)]
  rw [memberText_append, members_key (string_jsonQuote _ _)
    (by rw [statementMember_data, hdata]; rfl)]
  rw [memberText_append, moreMembers_key (string_jsonQuote _ _)
    (by rw [statementMember_triples, htriples]; rfl)]
  rw [moreMembers_close]
  rfl

/-- The statements' text reads back, up to any text after it, when each
literal triple reads back inside the `data` array. -/
theorem readStatements_render {d : Statements}
    (hlit : ∀ t ∈ d.literals, ReadsBack (readLiteralTriple 126) t.toJson t) (rest : List Char) :
    Step.out (readStatements depthBudget (d.toJson.render.toList ++ rest)) = .ok (d, rest) := by
  have htext : d.toJson.render.toList ++ rest =
      '\x7b' :: (memberText ("data", .arr (d.literals.map LiteralTriple.toJson)) ++
        ',' :: (memberText ("triples", .arr (d.triples.map Triple.toJson)) ++ '\x7d' :: rest)) := by
    simp [Statements.toJson, Json.render, toList_renderMembers_cons]
  rw [htext, readStatements, depthBudget, readBracketed_map 126,
    enclosed_closeMap (statementMembers_render hlit rest)]

end EntityGraph.Rdf

namespace EntityGraph.Statements

open Json Rdf

/-- Statements read back from the compact text of their value when every
literal is a value that reading builds, nested three levels less deep than
the depth budget allows: the statements' object, the `data` array and the
literal triple's array take the other three. -/
theorem ofJsonText_render {d : Statements}
    (hd : ∀ t ∈ d.literals, t.literal.Canonical FloatReadsBack ∧ t.literal.depth + 3 < depthBudget) :
    ofJsonText d.toJson.render = .ok d := by
  have hlit : ∀ t ∈ d.literals, ReadsBack (readLiteralTriple 126) t.toJson t := fun t ht =>
    readsBack_literalTriple ((canonical_toJson (hd t ht).1).readsBack (by
      have hdepth := (hd t ht).2
      rw [depth_toJson]
      simp only [depthBudget] at hdepth
      omega))
  have hread := readStatements_render hlit []
  rw [List.append_nil] at hread
  unfold ofJsonText readText
  rw [readWhole_eq_ok.2 ⟨[], hread, rfl⟩]
  rfl

end EntityGraph.Statements
