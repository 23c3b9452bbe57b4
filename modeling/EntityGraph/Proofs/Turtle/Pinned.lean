import Mathlib
import EntityGraph.Proofs.Turtle.Prefixes
import EntityGraph.Graph.Build

/-! # The pinned `rdf` prefix in Turtle

A drawing's prefix map is generated from the IRIs of the statements and then
pins the RDF namespace under `rdf`. Pinning a prefix the map already holds
changes its alias where it stands, so the pinned entry is not always the
last one. The Turtle writer names the table from the last entry to the
first, and a name is taken by the first entry from the end that asks for it.
A prefix pinned under an alias without underscores therefore keeps that
alias in the table exactly when no entry after it has the alias
(`mem_prefixTable_add`): a numbered name such as `rdf_1` never equals it,
and the last entry asking for it gets it. For drawings this gives
`rdf_prefix_declared_iff`: the Turtle text declares `rdf` for the RDF
namespace exactly when no prefix generated after the RDF namespace has the
alias `rdf`. When one does, the RDF namespace is declared as `rdf_1`
(`rdf_prefix_renamed`).
-/

namespace EntityGraph

namespace PrefixMap

/-! ## Pinning a prefix -/

/-- With distinct prefixes, no entry but one holds that entry's prefix. -/
theorem fst_not_mem_of_append_cons {L pre post : List (String × String)} {e : String × String}
    (hnd : (L.map Prod.fst).Nodup) (h : L = pre ++ e :: post) :
    e.1 ∉ pre.map Prod.fst ∧ e.1 ∉ post.map Prod.fst := by
  rw [h, List.map_append, List.map_cons, List.nodup_append] at hnd
  exact ⟨fun hm => hnd.2.2 _ hm _ List.mem_cons_self rfl, (List.nodup_cons.mp hnd.2.1).1⟩

/-- With distinct prefixes, the entries after a prefix are the same however
the list is cut at it. -/
theorem tail_eq_of_append_cons {L pre post pre' post' : List (String × String)}
    {e e' : String × String} (hnd : (L.map Prod.fst).Nodup) (h : L = pre ++ e :: post)
    (h' : L = pre' ++ e' :: post') (hk : e.1 = e'.1) : post = post' := by
  subst h
  induction pre generalizing pre' with
  | nil =>
    cases pre' with
    | nil => exact (List.cons.inj h').2
    | cons y pre' =>
      obtain ⟨rfl, rfl⟩ := List.cons.inj h'
      simp only [List.nil_append, List.map_cons, List.nodup_cons] at hnd
      exact absurd (by simp [hk]) hnd.1
  | cons x pre ih =>
    cases pre' with
    | nil =>
      obtain ⟨rfl, hpost⟩ := List.cons.inj h'
      simp only [List.cons_append, List.map_cons, List.nodup_cons] at hnd
      exact absurd (by simp [← hk]) hnd.1
    | cons y pre' =>
      simp only [List.cons_append, List.cons.injEq] at h'
      simp only [List.cons_append, List.map_cons, List.nodup_cons] at hnd
      exact ih hnd.2 h'.2

/-- Pinning a prefix the map already holds changes its alias where it
stands. -/
theorem entries_add_of_append_cons {m : PrefixMap} (hm : (m.entries.map Prod.fst).Nodup)
    {p a : String} (hne : a.isEmpty = false) {pre post : List (String × String)}
    {e : String × String} (h : m.entries = pre ++ e :: post) (hkey : e.1 = p) :
    (m.add p a).entries = pre ++ (p, a) :: post := by
  obtain ⟨hpre, hpost⟩ := fst_not_mem_of_append_cons hm h
  have hany : (m.entries.any fun f => f.1 == p) = true :=
    List.any_eq_true.mpr ⟨e, h ▸ List.mem_append_right _ List.mem_cons_self, by simp [hkey]⟩
  -- the entries around it hold other prefixes and stay as they are
  have hkeep : ∀ l : List (String × String), e.1 ∉ l.map Prod.fst →
      l.map (fun f => if f.1 == p then (p, a) else f) = l := fun l hl => by
    conv_rhs => rw [← List.map_id l]
    refine List.map_congr_left fun f hf => ?_
    have hfp : f.1 ≠ p := fun hfp => hl (by rw [hkey, ← hfp]; exact List.mem_map_of_mem hf)
    simp [hfp]
  unfold add
  rw [if_neg (by simp [hne]), if_pos hany, h]
  simp only [List.map_append, List.map_cons, hkeep pre hpre, hkeep post hpost, hkey,
    beq_self_eq_true, if_true]

end PrefixMap

namespace Turtle

open PrefixMap (numberedAlias)

/-! ## Taking a name -/

/-- The name chosen for an alias is the alias itself exactly when it is not
taken. -/
theorem freeName_eq_self_iff (taken : List String) (base : String) :
    freeName taken base = base ↔ base ∉ taken := by
  obtain ⟨n, hn, hfree, hbelow⟩ := freeName_firstFree taken base
  constructor
  · intro h
    rwa [h] at hfree
  · intro hb
    rcases Nat.eq_zero_or_pos n with rfl | hpos
    · simpa [numberedAlias] using hn
    · exact absurd (by simpa [numberedAlias] using hbelow 0 hpos) hb

/-- A numbered form of an alias is a name without underscores only when it
is the alias itself. -/
theorem eq_of_numberedAlias_eq {base a : String} {n : Nat} (ha : '_' ∉ a.toList)
    (h : numberedAlias base n = a) : base = a := by
  by_cases hn : n = 0
  · simpa [numberedAlias, hn] using h
  · rw [← h, PrefixMap.toList_numberedAlias] at ha
    simp [hn] at ha

/-- An alias without underscores is one of the names of a table exactly when
an entry asks for it: the last entry that does gets it. -/
theorem mem_names_nameTable {a : String} (ha : '_' ∉ a.toList) (L : List (String × String)) :
    a ∈ (nameTable L).map Prod.snd ↔ ∃ f ∈ L, f.2 = a := by
  induction L with
  | nil => simp [nameTable]
  | cons f L ih =>
    rw [nameTable, List.map_cons, List.mem_cons]
    constructor
    · rintro (h | h)
      · obtain ⟨n, hn, -, -⟩ := freeName_firstFree ((nameTable L).map Prod.snd) f.2
        exact ⟨f, List.mem_cons_self, eq_of_numberedAlias_eq ha (hn.symm.trans h.symm)⟩
      · obtain ⟨f', hf', rfl⟩ := ih.mp h
        exact ⟨f', List.mem_cons_of_mem _ hf', rfl⟩
    · rintro ⟨f', hf', rfl⟩
      rcases List.mem_cons.mp hf' with rfl | hf'
      · by_cases hin : f'.2 ∈ (nameTable L).map Prod.snd
        · exact .inr hin
        · exact .inl ((freeName_eq_self_iff _ _).mpr hin).symm
      · exact .inr (ih.mpr ⟨f', hf', rfl⟩)

/-- An entry between others is named past the names of the entries after
it. -/
theorem nameTable_append_cons (A B : List (String × String)) (x : String × String) :
    ∃ T, T.map Prod.fst = A.map Prod.fst ∧
      nameTable (A ++ x :: B) = T ++ (x.1, freeName ((nameTable B).map Prod.snd) x.2) :: nameTable B := by
  induction A with
  | nil => exact ⟨[], rfl, rfl⟩
  | cons y A ih =>
    obtain ⟨T, hT, heq⟩ := ih
    refine ⟨(y.1, freeName ((nameTable (A ++ x :: B)).map Prod.snd) y.2) :: T, by simp [hT], ?_⟩
    rw [List.cons_append, nameTable, heq, List.cons_append]

/-- A pair is in a table that holds its prefix once exactly when that entry
has its name. -/
theorem mem_append_cons_iff {T B : List (String × String)} {p a b : String}
    (hT : p ∉ T.map Prod.fst) (hB : p ∉ B.map Prod.fst) :
    (p, a) ∈ T ++ (p, b) :: B ↔ b = a := by
  constructor
  · intro h
    rcases List.mem_append.mp h with h | h
    · exact (hT (List.mem_map_of_mem h)).elim
    · rcases List.mem_cons.mp h with h | h
      · exact (Prod.mk.inj h).2.symm
      · exact (hB (List.mem_map_of_mem h)).elim
  · rintro rfl
    exact List.mem_append_right _ List.mem_cons_self

/-- A prefix pinned under an alias without underscores, in a map with
distinct prefixes, keeps the alias in the Turtle table exactly when no entry
after the prefix's own has that alias. A new prefix goes last and always
keeps it. -/
theorem mem_prefixTable_add {m : PrefixMap} (hm : (m.entries.map Prod.fst).Nodup) {p a : String}
    (hu : isPrefixName a = true) (ha : '_' ∉ a.toList) :
    (p, a) ∈ prefixTable (m.add p a) ↔
      ∀ pre e post, m.entries = pre ++ e :: post → e.1 = p → ∀ f ∈ post, f.2 ≠ a := by
  have hne : a.isEmpty = false := by
    obtain ⟨c, cs, hcs, -⟩ := (isPrefixName_iff a).mp hu
    simp [← String.toList_inj, hcs]
  cases hp : m.entries.any (fun e => e.1 == p) with
  | false =>
    -- a new prefix: it goes last and takes its alias
    have hentries := PrefixMap.entries_add_of_absent m p a hne hp
    obtain ⟨T, -, htable⟩ := nameTable_append_cons (m.entries.filter fun e => isPrefixName e.2) [] (p, a)
    simp only [prefixTable_eq, hentries, List.filter_append, List.filter_cons, List.filter_nil, hu,
      if_true]
    rw [htable]
    refine ⟨fun _ pre e post h he => ?_, fun _ => ?_⟩
    · have hany : (m.entries.any fun e => e.1 == p) = true :=
        List.any_eq_true.mpr ⟨e, h ▸ List.mem_append_right _ List.mem_cons_self, by simp [he]⟩
      rw [hp] at hany
      cases hany
    · simp [nameTable, freeName]
  | true =>
    -- a prefix the map holds: its alias changes in place
    obtain ⟨e, he, hep⟩ := List.any_eq_true.mp hp
    obtain ⟨pre, post, hsplit⟩ := List.append_of_mem he
    have hkey : e.1 = p := by simpa using hep
    obtain ⟨hpre, hpost⟩ := PrefixMap.fst_not_mem_of_append_cons hm hsplit
    obtain ⟨T, hT, htable⟩ := nameTable_append_cons (pre.filter fun e => isPrefixName e.2)
      (post.filter fun e => isPrefixName e.2) (p, a)
    simp only [prefixTable_eq, PrefixMap.entries_add_of_append_cons hm hne hsplit hkey,
      List.filter_append, List.filter_cons, hu, if_true]
    -- the prefix occurs once in the table, at the pinned entry
    have hT' : p ∉ T.map Prod.fst := by
      rw [hT, ← hkey]
      exact fun hm => hpre ((List.filter_sublist.map _).subset hm)
    have hB : p ∉ (nameTable (post.filter fun e => isPrefixName e.2)).map Prod.fst := by
      rw [map_fst_nameTable, ← hkey]
      exact fun hm => hpost ((List.filter_sublist.map _).subset hm)
    rw [htable, mem_append_cons_iff hT' hB, freeName_eq_self_iff, mem_names_nameTable ha]
    constructor
    · intro h pre' e' post' h' he' f hf hfa
      have hpost' := PrefixMap.tail_eq_of_append_cons hm hsplit h' (hkey.trans he'.symm)
      subst hpost'
      exact h ⟨f, List.mem_filter.mpr ⟨hf, hfa ▸ hu⟩, hfa⟩
    · rintro h ⟨f, hf, hfa⟩
      exact h pre e post hsplit hkey f (List.mem_filter.mp hf).1 hfa

/-! ## Declaration lines -/

/-- How a character of an IRI is written in an IRI reference. -/
def iriChar (c : Char) : List Char :=
  if needsEscape c then
    ['\\', 'u', hexDigitUpper (c.toNat / 4096), hexDigitUpper (c.toNat / 256 % 16),
      hexDigitUpper (c.toNat / 16 % 16), hexDigitUpper (c.toNat % 16)]
  else [c]

theorem toList_iriRef_iriChar (uri : String) :
    (iriRef uri).toList = '<' :: uri.toList.flatMap iriChar ++ ['>'] :=
  toList_iriRef uri

theorem flatMap_iriChar_of_plain {ys : List Char} (h : ∀ c ∈ ys, needsEscape c = false) :
    ys.flatMap iriChar = ys := by
  induction ys with
  | nil => rfl
  | cons c ys ih =>
    rw [List.flatMap_cons, ih fun d hd => h d (List.mem_cons_of_mem _ hd)]
    simp [iriChar, h c List.mem_cons_self]

/-- Written characters without a backslash are the characters themselves:
every escape starts with one. -/
theorem eq_of_flatMap_iriChar {xs ys : List Char} (hy : '\\' ∉ ys) (h : xs.flatMap iriChar = ys) :
    xs = ys := by
  induction xs generalizing ys with
  | nil => simpa using h
  | cons c xs ih =>
    rw [List.flatMap_cons] at h
    by_cases hc : needsEscape c = true
    · simp only [iriChar, hc, if_true, List.cons_append] at h
      exact absurd (h ▸ List.mem_cons_self) hy
    · have hplain : iriChar c = [c] := by simp [iriChar, hc]
      rw [hplain, List.singleton_append] at h
      subst h
      congr 1
      exact ih (fun hm => hy (List.mem_cons_of_mem _ hm)) rfl

/-- Only the IRI itself has the IRI reference of an IRI that needs no
escapes. -/
theorem eq_of_iriRef_eq {x y : String} (hy : ∀ c ∈ y.toList, needsEscape c = false)
    (h : iriRef x = iriRef y) : x = y := by
  have hl := congrArg String.toList h
  rw [toList_iriRef_iriChar, toList_iriRef_iriChar, flatMap_iriChar_of_plain hy] at hl
  have hbody := List.append_cancel_right (List.cons.inj hl).2
  have hback : '\\' ∉ y.toList := fun hm => by simpa [needsEscape] using hy _ hm
  exact String.toList_inj.mp (eq_of_flatMap_iriChar hback hbody)

/-- Two texts that agree after the first occurrence of a character are cut
there at the same place. -/
theorem eq_of_append_cons_eq {c : Char} {x y r r' : List Char} (hx : c ∉ x) (hy : c ∉ y)
    (h : x ++ c :: r = y ++ c :: r') : x = y ∧ r = r' := by
  induction x generalizing y with
  | nil =>
    cases y with
    | nil => exact ⟨rfl, (List.cons.inj h).2⟩
    | cons d y => exact absurd (by simp [(List.cons.inj h).1]) hy
  | cons d x ih =>
    cases y with
    | nil => exact absurd (by simp [(List.cons.inj h).1]) hx
    | cons d' y =>
      simp only [List.cons_append, List.cons.injEq] at h
      obtain ⟨rfl, h⟩ := h
      obtain ⟨rfl, rfl⟩ := ih (fun hm => hx (List.mem_cons_of_mem _ hm))
        (fun hm => hy (List.mem_cons_of_mem _ hm)) h
      exact ⟨rfl, rfl⟩

theorem colon_not_mem_of_isPrefixName {s : String} (h : isPrefixName s = true) : ':' ∉ s.toList := by
  obtain ⟨c, cs, hs, hc, hcs⟩ := (isPrefixName_iff s).mp h
  rw [hs]
  rintro (_ | ⟨_, hm⟩)
  · simp at hc
  · rcases hcs ':' hm with h | h | h <;> simp at h

/-- A declaration line names its entry: the name ends at the first colon,
and the IRI reference gives back an IRI that needs no escapes. -/
theorem eq_of_prefixLine_eq {e : String × String} {p a : String} (he : isPrefixName e.2 = true)
    (ha : isPrefixName a = true) (hp : ∀ c ∈ p.toList, needsEscape c = false)
    (h : "@prefix " ++ e.2 ++ ": " ++ iriRef e.1 ++ " .\n" = "@prefix " ++ a ++ ": " ++ iriRef p ++ " .\n") :
    e = (p, a) := by
  have hl := congrArg String.toList h
  simp only [String.toList_append, List.append_assoc] at hl
  have hrest := List.append_cancel_left hl
  have hcolon : (": " ++ iriRef e.1 ++ " .\n").toList = ':' :: (" " ++ iriRef e.1 ++ " .\n").toList := by
    simp
  have hcolon' : (": " ++ iriRef p ++ " .\n").toList = ':' :: (" " ++ iriRef p ++ " .\n").toList := by
    simp
  obtain ⟨hname, htail⟩ := eq_of_append_cons_eq (colon_not_mem_of_isPrefixName he)
    (colon_not_mem_of_isPrefixName ha) (by simpa [hcolon, hcolon'] using hrest)
  have hiri : (iriRef e.1).toList = (iriRef p).toList := by
    simpa using htail
  exact Prod.ext (eq_of_iriRef_eq hp (String.toList_inj.mp hiri)) (String.toList_inj.mp hname)

/-! ## The `rdf` prefix of a drawing -/

/-- The RDF namespace is written in an IRI reference as it is. -/
theorem needsEscape_rdfNamespace : ∀ c ∈ Rdf.rdfNamespace.toList, needsEscape c = false := by
  have hall : (Rdf.rdfNamespace.toList.all fun c => !needsEscape c) = true := by decide
  simpa using hall

/-- The Turtle text of statements, with the prefixes they are drawn with,
opens with the declaration lines of the prefix table. It declares `rdf` for
the RDF namespace exactly when no prefix generated after the RDF namespace
has the alias `rdf`: either the RDF namespace is not generated, or every
prefix generated after it has another alias. -/
theorem rdf_prefix_declared_iff (s : DrawSettings) (d : Statements) :
    (∃ rest, d.toTurtle (d.prefixes s) = String.join ((prefixTable (d.prefixes s)).map fun e =>
        "@prefix " ++ e.2 ++ ": " ++ iriRef e.1 ++ " .\n") ++ rest) ∧
    ("@prefix " ++ "rdf" ++ ": " ++ iriRef Rdf.rdfNamespace ++ " .\n" ∈
        (prefixTable (d.prefixes s)).map (fun e => "@prefix " ++ e.2 ++ ": " ++ iriRef e.1 ++ " .\n") ↔
      ∀ pre e post, (PrefixMap.generate d.namedIris s.separators s.maxAliasLen).entries = pre ++ e :: post →
        e.1 = Rdf.rdfNamespace → ∀ f ∈ post, f.2 ≠ "rdf") := by
  refine ⟨toTurtle_header d _, ?_⟩
  rw [← mem_prefixTable_add (PrefixMap.nodup_generate_fst _ _ _) (by decide) (by decide)]
  constructor
  · intro h
    obtain ⟨e, he, heq⟩ := List.mem_map.mp h
    have hvalid : isPrefixName e.2 = true := by
      rw [prefixTable_eq] at he
      exact isPrefixName_of_mem_nameTable (fun x hx => (List.mem_filter.mp hx).2) e he
    rw [← eq_of_prefixLine_eq hvalid (by decide) needsEscape_rdfNamespace heq]
    exact he
  · exact List.mem_map_of_mem

set_option maxRecDepth 20000 in
/-- Statements whose predicate is in the RDF namespace and whose ends are in
`http://rdf.org/`: the RDF namespace is generated first under `w3` and then
pinned in place, `http://rdf.org/` is generated after it as `rdf`, so the
Turtle text declares the RDF namespace as `rdf_1`. -/
theorem rdf_prefix_renamed :
    ("@prefix " ++ "rdf" ++ ": " ++ iriRef Rdf.rdfNamespace ++ " .\n" ∉
        (prefixTable (Statements.prefixes {}
          ⟨[⟨"http://rdf.org/s", Rdf.rdfNamespace ++ "type", "http://rdf.org/o"⟩], []⟩)).map
          fun e => "@prefix " ++ e.2 ++ ": " ++ iriRef e.1 ++ " .\n") ∧
      Statements.toTurtle ⟨[⟨"http://rdf.org/s", Rdf.rdfNamespace ++ "type", "http://rdf.org/o"⟩], []⟩
          (Statements.prefixes {}
            ⟨[⟨"http://rdf.org/s", Rdf.rdfNamespace ++ "type", "http://rdf.org/o"⟩], []⟩) =
        "@prefix rdf_1: <http://www.w3.org/1999/02/22-rdf-syntax-ns#> .\n" ++
          "@prefix rdf: <http://rdf.org/> .\n\nrdf:s rdf_1:type rdf:o .\n" :=
  ⟨by decide, by decide⟩

end Turtle

end EntityGraph
