import Mathlib
import EntityGraph.Proofs.Rdf.RoundTrip

/-! # Statements through a JSON codec

Statements are written as the text of their value and read back by taking
a value from the text and reading statements from that value. The two steps
between values and text belong to a codec, `write` and `read`, and the
statements come back whole through any codec that carries values through
text (`Statements.ofJsonTextWith_write_toJson`): every canonical value whose
brackets nest less deep than the depth budget reads back from its text.
Which doubles a codec carries exactly is its own matter, the parameter
`exact`; the writer and reader of this library carry the doubles that read
back from their text (`Json.parse_render`).

What the codec does not do is reading statements from their value
(`Statements.ofJson_toJson`): a triple is an array of three strings, and a
literal triple an array of three items, or of four with the tag, which
`literalTripleOf?` takes back to the same subject, predicate, literal and
tag. -/

namespace EntityGraph

open Json Decode Rdf

/-! ## Reading statements from their value -/

theorem asList_arr_map {f : Json → Except Mismatch α} {g : α → Json} {xs : List α}
    (h : ∀ x ∈ xs, f (g x) = .ok x) : asList f (.arr (xs.map g)) = .ok xs := by
  induction xs with
  | nil => rfl
  | cons x xs ih =>
    have hxs := ih fun y hy => h y (List.mem_cons_of_mem x hy)
    simp only [asList] at hxs ⊢
    simp only [List.map_cons, List.mapM_cons, h x List.mem_cons_self, hxs]
    rfl

theorem Triple.ofJson_toJson (t : Triple) : Triple.ofJson t.toJson = .ok t := rfl

theorem LiteralTriple.ofJson_toJson (t : LiteralTriple) : LiteralTriple.ofJson t.toJson = .ok t := by
  simp [LiteralTriple.ofJson, literalTripleOf_toJson]

/-- Statements read back from their value, whatever their literals. -/
theorem Statements.ofJson_toJson (d : Statements) : Statements.ofJson d.toJson = .ok d := by
  have htriples : asList Triple.ofJson (.arr (d.triples.map Triple.toJson)) = .ok d.triples :=
    asList_arr_map fun t _ => Triple.ofJson_toJson t
  have hliterals :
      asList LiteralTriple.ofJson (.arr (d.literals.map LiteralTriple.toJson)) = .ok d.literals :=
    asList_arr_map fun t _ => LiteralTriple.ofJson_toJson t
  simp [Statements.ofJson, Statements.toJson, checkMembers, reads, optionalField, List.lookup,
    Except.map, htriples, hliterals]
  rfl

/-! ## The value of statements -/

section Value

variable {exact : Float → Prop}

theorem Triple.canonical_toJson (t : Triple) : t.toJson.Canonical exact :=
  .arr_cons (.str _) (.arr_cons (.str _) (.arr_cons (.str _) .arr_nil))

theorem Statements.canonical_toJson {d : Statements}
    (h : ∀ t ∈ d.literals, t.literal.Canonical exact) : d.toJson.Canonical exact := by
  refine .obj (List.pairwise_pair.2 (show "data" < "triples" by decide)) fun m hm => ?_
  simp only [List.mem_cons, List.not_mem_nil, or_false] at hm
  rcases hm with rfl | rfl
  · refine .arr fun v hv => ?_
    obtain ⟨t, ht, rfl⟩ := List.mem_map.1 hv
    exact Rdf.canonical_toJson (h t ht)
  · refine .arr fun v hv => ?_
    obtain ⟨t, -, rfl⟩ := List.mem_map.1 hv
    exact Triple.canonical_toJson t

end Value

/-- The value of statements nests three levels deeper than its deepest
literal: the object, the `data` array and the literal triple's array. -/
theorem Statements.depth_toJson_lt {d : Statements} {n : Nat}
    (h : ∀ t ∈ d.literals, t.literal.depth + 3 < n) (hn : 3 < n) : d.toJson.depth < n := by
  have hliterals : depthItems (d.literals.map LiteralTriple.toJson) < n - 2 := by
    refine depthItems_lt (fun v hv => ?_) (by omega)
    obtain ⟨t, ht, rfl⟩ := List.mem_map.1 hv
    have := h t ht
    rw [Rdf.depth_toJson]
    omega
  have htriples : depthItems (d.triples.map Triple.toJson) < n - 2 := by
    refine depthItems_lt (fun v hv => ?_) (by omega)
    obtain ⟨t, -, rfl⟩ := List.mem_map.1 hv
    simp only [Triple.toJson, depth, depthItems]
    omega
  simp only [Statements.toJson, depth, depthMembers]
  omega

/-! ## Through a codec -/

/-- Statements written by a JSON writer through their value read back
through a JSON reader, when the two carry values through text: each
canonical value, its doubles those `exact` admits, reads back from its text
when its brackets nest less deep than the depth budget. The literals must be
canonical and nest three levels less deep than the budget, for the three
levels the statements' value puts around each. -/
theorem Statements.ofJsonTextWith_write_toJson (write : Json → String)
    (read : String → Except String Json) {exact : Float → Prop}
    (valueRoundTrip : ∀ v : Json, v.Canonical exact → v.depth < depthBudget → read (write v) = .ok v)
    {d : Statements}
    (hd : ∀ t ∈ d.literals, t.literal.Canonical exact ∧ t.literal.depth + 3 < depthBudget) :
    Statements.ofJsonTextWith read (write d.toJson) = .ok d := by
  have hcanonical : d.toJson.Canonical exact := canonical_toJson fun t ht => (hd t ht).1
  have hdepth : d.toJson.depth < depthBudget :=
    depth_toJson_lt (fun t ht => (hd t ht).2) (by decide)
  rw [ofJsonTextWith, valueRoundTrip _ hcanonical hdepth]
  change (ofJson d.toJson).mapError _ = _
  rw [ofJson_toJson]
  rfl

/-- Through the writer and reader of this library: a triple, a tagged
string literal and an untagged object literal with a negative integer and a
nested array read back. -/
theorem ofJsonTextWith_write_toJson_sample :
    (∀ v : Json, v.Canonical FloatReadsBack → v.depth < depthBudget → parse v.render = .ok v) ∧
    (∀ t ∈ [(⟨"http://ex.org/ada", "http://ex.org/name", .str "Ada", some "en"⟩ : LiteralTriple),
        ⟨"http://ex.org/ada", "http://ex.org/note",
          .obj [("offset", .num (.neg (-5))), ("tags", .arr [.null, .bool true])], none⟩],
      t.literal.Canonical FloatReadsBack ∧ t.literal.depth + 3 < depthBudget) ∧
    Statements.ofJsonTextWith parse (Json.render (⟨[⟨"http://ex.org/ada", "http://ex.org/knows",
        "http://ex.org/bob"⟩],
        [⟨"http://ex.org/ada", "http://ex.org/name", .str "Ada", some "en"⟩,
          ⟨"http://ex.org/ada", "http://ex.org/note",
            .obj [("offset", .num (.neg (-5))), ("tags", .arr [.null, .bool true])], none⟩]⟩ :
        Statements).toJson) =
      .ok ⟨[⟨"http://ex.org/ada", "http://ex.org/knows", "http://ex.org/bob"⟩],
        [⟨"http://ex.org/ada", "http://ex.org/name", .str "Ada", some "en"⟩,
          ⟨"http://ex.org/ada", "http://ex.org/note",
            .obj [("offset", .num (.neg (-5))), ("tags", .arr [.null, .bool true])], none⟩]⟩ := by
  have hcodec : ∀ v : Json, v.Canonical FloatReadsBack → v.depth < depthBudget →
      parse v.render = .ok v := fun _ hv hd => parse_render hv hd
  have hlit : ∀ t ∈ [(⟨"http://ex.org/ada", "http://ex.org/name", .str "Ada", some "en"⟩ :
        LiteralTriple),
      ⟨"http://ex.org/ada", "http://ex.org/note",
        .obj [("offset", .num (.neg (-5))), ("tags", .arr [.null, .bool true])], none⟩],
      t.literal.Canonical FloatReadsBack ∧ t.literal.depth + 3 < depthBudget := by
    intro t ht
    simp only [List.mem_cons, List.not_mem_nil, or_false] at ht
    rcases ht with rfl | rfl
    · exact ⟨.str _, by decide⟩
    · refine ⟨.obj (by decide) fun m hm => ?_, by decide⟩
      simp only [List.mem_cons, List.not_mem_nil, or_false] at hm
      rcases hm with rfl | rfl
      · exact .neg (by decide)
      · exact .arr_cons .null (.arr_cons (.bool true) .arr_nil)
  exact ⟨hcodec, hlit, Statements.ofJsonTextWith_write_toJson Json.render parse hcodec hlit⟩

theorem ne_ok_of_isOk {x : Except ε α} {a : α} (h : x.isOk = false) : x ≠ .ok a := by
  rintro rfl
  cases h

/-- A literal nested 125 levels deep is written, but the text of its
statements opens more levels than the depth budget allows, so neither the
streaming reader nor reading by way of the value takes the statements
back. -/
theorem ofJsonText_render_too_deep :
    Statements.ofJsonText
        (⟨[], [⟨"s", "p", (fun v => Json.arr [v])^[125] .null, none⟩]⟩ : Statements).toJson.render ≠
      .ok ⟨[], [⟨"s", "p", (fun v => Json.arr [v])^[125] .null, none⟩]⟩ ∧
    Statements.ofJsonTextWith parse
        (⟨[], [⟨"s", "p", (fun v => Json.arr [v])^[125] .null, none⟩]⟩ : Statements).toJson.render ≠
      .ok ⟨[], [⟨"s", "p", (fun v => Json.arr [v])^[125] .null, none⟩]⟩ :=
  ⟨ne_ok_of_isOk (by decide +kernel), ne_ok_of_isOk (by decide +kernel)⟩

end EntityGraph
