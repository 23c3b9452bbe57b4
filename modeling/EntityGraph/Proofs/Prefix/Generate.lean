import Mathlib
import EntityGraph.Proofs.Prefix.Alias

/-! # Generated prefix maps

`generate` registers the chosen prefixes in order, each under its numbered
alias; `add` skips an empty alias, and the chosen prefixes are distinct, so
the map is the zipped list less the pairs with an empty alias
(`generate_entries`). With a positive maximal length nothing is skipped;
with maximal length zero every suggestion is empty and only the first
prefix is lost. The two main results describe the prefixes
(`generate_prefixes`) and the aliases (`generate_aliases`) of every
generated map.
-/

namespace EntityGraph.PrefixMap

/-! ## Registering -/

/-- In a list whose keys are distinct, looking up the key of a member finds
that member. -/
theorem find?_key_eq_of_mem {l : List (String × String)} (key : String × String → String)
    (hnd : (l.map key).Nodup) {e : String × String} (he : e ∈ l) :
    l.find? (fun e' => key e' == key e) = some e := by
  induction l with
  | nil => simp at he
  | cons e' rest ih =>
    simp only [List.map_cons, List.nodup_cons, List.mem_map] at hnd
    rcases List.mem_cons.mp he with rfl | he
    · simp
    · have hne : key e' ≠ key e := fun h => hnd.1 ⟨e, he, h.symm⟩
      have hb : (key e' == key e) = false := by simpa using hne
      simp only [List.find?_cons, hb]
      exact ih hnd.2 he

/-- In a map whose prefixes are distinct, the alias of a registered prefix is
the one it was registered with. -/
theorem aliasOf?_eq_of_mem {m : PrefixMap} (hnd : (m.entries.map Prod.fst).Nodup)
    {p a : String} (h : (p, a) ∈ m.entries) : m.aliasOf? p = some a := by
  have hfind : m.entries.find? (·.1 == p) = some (p, a) :=
    find?_key_eq_of_mem Prod.fst hnd h
  simp [aliasOf?, hfind]

/-- Registering new prefixes one after another appends those with a
nonempty alias, in order. -/
theorem entries_foldl_add {f : PrefixMap → String × String → PrefixMap}
    (hf : ∀ m e, f m e = m.add e.1 e.2) (l : List (String × String)) (m : PrefixMap)
    (hnd : (l.map Prod.fst).Nodup) (hnew : ∀ e ∈ l, ∀ e' ∈ m.entries, e.1 ≠ e'.1) :
    (l.foldl f m).entries = m.entries ++ l.filter fun e => !e.2.isEmpty := by
  induction l generalizing m with
  | nil => simp
  | cons e rest ih =>
    simp only [List.map_cons, List.nodup_cons, List.mem_map] at hnd
    have hrest : ∀ e'' ∈ rest, e''.1 ≠ e.1 := fun e'' he'' h => hnd.1 ⟨e'', he'', h⟩
    rw [List.foldl_cons, hf]
    cases hempty : e.2.isEmpty with
    | true =>
      have he : e.2 = "" := String.isEmpty_iff.mp hempty
      rw [he, add_empty, ih m hnd.2 fun e'' he'' => hnew e'' (List.mem_cons_of_mem _ he'')]
      simp [he]
    | false =>
      have habsent : m.entries.any (fun e' => e'.1 == e.1) = false := by
        apply List.any_eq_false.mpr
        intro e' he' h
        have heq : e'.1 = e.1 := by simpa using h
        exact hnew e (by simp) e' he' heq.symm
      have hadd := entries_add_of_absent m e.1 e.2 hempty habsent
      rw [ih _ hnd.2, hadd]
      · simp [hempty]
      · intro e'' he'' e' he'
        rw [hadd] at he'
        rcases List.mem_append.mp he' with he' | he'
        · exact hnew e'' (List.mem_cons_of_mem _ he'') e' he'
        · rw [List.mem_singleton.mp he']
          exact hrest e'' he''

/-! ## The generated map -/

theorem zip_map_range {α β : Type} (l : List α) (g : Nat → β) :
    l.zip ((List.range l.length).map g) = l.mapIdx fun i a => (a, g i) := by
  apply List.ext_getElem (by simp)
  intro i h1 h2
  simp

/-- The generated map holds the chosen prefixes, each with its numbered
alias, less those whose alias is empty. -/
theorem generate_entries (uris : List String) (separators : String) (maxLen : Nat) :
    (generate uris separators maxLen).entries =
      ((choosePrefixes separators.toList uris).zip
        (numberAliases ((choosePrefixes separators.toList uris).map (aliasBase maxLen)))).filter
        fun e => !e.2.isEmpty := by
  have hfst : ((choosePrefixes separators.toList uris).zip
      (numberAliases ((choosePrefixes separators.toList uris).map (aliasBase maxLen)))).map
        Prod.fst = choosePrefixes separators.toList uris :=
    List.map_fst_zip (by simp)
  simp only [generate]
  rw [entries_foldl_add (fun _ _ => rfl) _ _ (by rw [hfst]; exact nodup_choosePrefixes _ _)
    (by simp [empty])]
  simp [empty]

theorem nodup_generate_fst (uris : List String) (separators : String) (maxLen : Nat) :
    ((generate uris separators maxLen).entries.map Prod.fst).Nodup := by
  rw [generate_entries]
  refine List.Nodup.sublist (List.filter_sublist.map Prod.fst) ?_
  rw [List.map_fst_zip (by simp)]
  exact nodup_choosePrefixes _ _

/-- The aliases of the generated map are numbered aliases, in order. -/
theorem generate_snd_sublist (uris : List String) (separators : String) (maxLen : Nat) :
    ((generate uris separators maxLen).entries.map Prod.snd).Sublist
      (numberAliases ((choosePrefixes separators.toList uris).map (aliasBase maxLen))) := by
  rw [generate_entries]
  refine (List.filter_sublist.map Prod.snd).trans ?_
  rw [List.map_snd_zip (by simp)]

/-- With a positive maximal length no alias is empty, so every chosen prefix
is registered. -/
theorem generate_entries_of_pos (uris : List String) (separators : String) {maxLen : Nat}
    (h : 0 < maxLen) :
    (generate uris separators maxLen).entries =
      (choosePrefixes separators.toList uris).zip
        (numberAliases ((choosePrefixes separators.toList uris).map (aliasBase maxLen))) := by
  rw [generate_entries]
  apply List.filter_eq_self.mpr
  intro e he
  obtain ⟨b, hb, k, -, hek⟩ := exists_of_mem_numberAliases (List.of_mem_zip he).2
  obtain ⟨p, -, rfl⟩ := List.mem_map.mp hb
  rw [hek]
  simpa using numberedAlias_ne_empty (Or.inl (aliasBase_ne_empty h p))

/-- With maximal length zero every suggested alias is empty: the first prefix
is left out and the others are numbered `_1`, `_2`, …. -/
theorem generate_entries_zero (uris : List String) (separators : String) :
    (generate uris separators 0).entries =
      (choosePrefixes separators.toList uris).tail.mapIdx fun i p => (p, "_" ++ toString (i + 1)) := by
  rw [generate_entries]
  have hbases : (choosePrefixes separators.toList uris).map (aliasBase 0) =
      List.replicate (choosePrefixes separators.toList uris).length "" := by
    rw [List.map_congr_left fun p _ => aliasBase_zero p, List.map_const']
  rw [hbases, numberAliases_replicate_empty]
  cases choosePrefixes separators.toList uris with
  | nil => rfl
  | cons p rest =>
    rw [List.length_cons, List.range_succ_eq_map, List.map_cons, List.zip_cons_cons,
      List.filter_cons]
    simp only [numberedAlias, ↓reduceIte, List.tail_cons]
    rw [if_neg (by simp), List.filter_eq_self.mpr, List.map_map, ← zip_map_range]
    · simp [Function.comp_def, numberedAlias]
    · intro e he
      have := (List.of_mem_zip he).2
      simp only [List.map_map, List.mem_map, List.mem_range] at this
      obtain ⟨k, -, hk⟩ := this
      rw [← hk]
      have hne : numberedAlias "" (k + 1) ≠ "" := numberedAlias_ne_empty (Or.inr (Nat.succ_ne_zero k))
      simpa using hne

/-- The alias a chosen prefix is registered under, when it is not empty: its
suggested alias, numbered by how often the earlier prefixes suggested it. -/
theorem aliasOf?_generate (uris : List String) (separators : String) (maxLen : Nat) (j : Nat)
    (hj : j < (choosePrefixes separators.toList uris).length)
    (hreg : numberedAlias (aliasBase maxLen (choosePrefixes separators.toList uris)[j])
      ((((choosePrefixes separators.toList uris).map (aliasBase maxLen)).take j).count
        (aliasBase maxLen (choosePrefixes separators.toList uris)[j])) ≠ "") :
    (generate uris separators maxLen).aliasOf? (choosePrefixes separators.toList uris)[j] =
      some (numberedAlias (aliasBase maxLen (choosePrefixes separators.toList uris)[j])
        ((((choosePrefixes separators.toList uris).map (aliasBase maxLen)).take j).count
          (aliasBase maxLen (choosePrefixes separators.toList uris)[j]))) := by
  apply aliasOf?_eq_of_mem (nodup_generate_fst uris separators maxLen)
  rw [generate_entries, List.mem_filter]
  refine ⟨List.mem_iff_getElem?.mpr ⟨j, List.getElem?_zip_eq_some.mpr ⟨by simp, ?_⟩⟩, ?_⟩
  · have h := getElem?_numberAliases
      ((choosePrefixes separators.toList uris).map (aliasBase maxLen)) j (by simpa using hj)
    rw [List.getElem_map] at h
    exact h
  · simpa using hreg

/-- A chosen prefix other than the first is always registered, and so is the
first when aliases may have a character: its numbered alias is not empty. -/
theorem numberedAlias_generate_ne_empty (uris : List String) (separators : String)
    (maxLen : Nat) (j : Nat) (hj : j < (choosePrefixes separators.toList uris).length)
    (hpos : 0 < maxLen ∨ 0 < j) :
    numberedAlias (aliasBase maxLen (choosePrefixes separators.toList uris)[j])
      ((((choosePrefixes separators.toList uris).map (aliasBase maxLen)).take j).count
        (aliasBase maxLen (choosePrefixes separators.toList uris)[j])) ≠ "" := by
  apply numberedAlias_ne_empty
  by_cases hmax : 0 < maxLen
  · exact Or.inl (aliasBase_ne_empty hmax _)
  · -- every suggestion is empty, so the count is the position
    have hzero : maxLen = 0 := by omega
    have hj0 : 0 < j := hpos.resolve_left hmax
    subst hzero
    right
    rw [aliasBase_zero, List.map_congr_left fun p _ => aliasBase_zero p, List.map_const',
      List.take_replicate, List.count_replicate_self]
    omega

/-! ## Prefixes and aliases of a generated map -/

/-- The prefixes of a generated map. The merge keeps exactly the minimal
candidates (those no other candidate is a proper prefix of), once each, in
the order they first occur. None of them is a prefix of another, and every
IRI with a separator starts with one. The map registers all of them, or with
maximal length zero all but the first, whose alias is empty. -/
theorem generate_prefixes (uris : List String) (separators : String) (maxLen : Nat) :
    choosePrefixes separators.toList uris = minimalCandidates (candidates separators.toList uris) ∧
    (choosePrefixes separators.toList uris).Pairwise
      (fun a b => startsWith b a = false ∧ startsWith a b = false) ∧
    (∀ u ∈ uris, (∃ c ∈ u.toList, c ∈ separators.toList) →
      ∃ p ∈ choosePrefixes separators.toList uris, startsWith u p = true) ∧
    (generate uris separators maxLen).entries.map Prod.fst =
      if 0 < maxLen then choosePrefixes separators.toList uris
      else (choosePrefixes separators.toList uris).tail := by
  have hps := choosePrefixes_eq_minimalCandidates separators.toList uris
  refine ⟨hps, hps ▸ minimalCandidates_pairwise _, ?_, ?_⟩
  · intro u hu hsep
    obtain ⟨c, hc⟩ := candidate_isSome hsep
    have hcs : c ∈ candidates separators.toList uris := List.mem_filterMap.mpr ⟨u, hu, hc⟩
    obtain ⟨p, hp, hcp⟩ := exists_minimalCandidate_of_mem hcs
    exact ⟨p, hps ▸ hp, startsWith_trans (startsWith_candidate hc) hcp⟩
  · split
    · rename_i hpos
      rw [generate_entries_of_pos uris separators hpos, List.map_fst_zip (by simp)]
    · rename_i hpos
      rw [Nat.eq_zero_of_not_pos hpos, generate_entries_zero]
      apply List.ext_getElem (by simp)
      intro i _ _
      simp

-- `http://a.org/` evicts `http://a.org/deep/` and first occurs after `http://b.org/`
example :
    (generate ["http://a.org/deep/x", "http://b.org/y", "http://a.org/z"] "/#" 30).entries =
      [("http://b.org/", "b"), ("http://a.org/", "a")] := by
  decide

/-- The aliases of a generated map are pairwise distinct and have no colon.
The alias of the `j`-th chosen prefix is its suggested alias `b`, with `_k`
appended when `k > 0` earlier prefixes suggested `b` too (`numberedAlias`);
it is registered unless it is empty, which happens only to the first prefix
with maximal length zero. A suggested alias has only lower-case ASCII
letters and digits, at most the maximal length of them, and at least one
when that is positive; with maximal length zero the map is the later
prefixes under `_1`, `_2`, …. -/
theorem generate_aliases (uris : List String) (separators : String) (maxLen : Nat) :
    ((generate uris separators maxLen).entries.map Prod.snd).Nodup ∧
    (∀ a ∈ (generate uris separators maxLen).entries.map Prod.snd, ':' ∉ a.toList) ∧
    (∀ j (hj : j < (choosePrefixes separators.toList uris).length), 0 < maxLen ∨ 0 < j →
      (generate uris separators maxLen).aliasOf? (choosePrefixes separators.toList uris)[j] =
        some (numberedAlias (aliasBase maxLen (choosePrefixes separators.toList uris)[j])
          ((((choosePrefixes separators.toList uris).map (aliasBase maxLen)).take j).count
            (aliasBase maxLen (choosePrefixes separators.toList uris)[j])))) ∧
    (∀ p ∈ choosePrefixes separators.toList uris,
      (∀ c ∈ (aliasBase maxLen p).toList, c.isLower = true ∨ c.isDigit = true) ∧
      (aliasBase maxLen p).length ≤ maxLen ∧ (0 < maxLen → aliasBase maxLen p ≠ "")) ∧
    (maxLen = 0 → (generate uris separators maxLen).entries =
      (choosePrefixes separators.toList uris).tail.mapIdx
        fun i p => (p, "_" ++ toString (i + 1))) := by
  have hsub := generate_snd_sublist uris separators maxLen
  have hnodup : (numberAliases ((choosePrefixes separators.toList uris).map
      (aliasBase maxLen))).Nodup := nodup_numberAliases fun b hb => by
    obtain ⟨p, -, rfl⟩ := List.mem_map.mp hb
    exact not_mem_aliasBase (by decide) (by decide) maxLen p
  refine ⟨hnodup.sublist hsub, ?_, ?_, ?_, ?_⟩
  · intro a ha
    obtain ⟨b, hb, k, -, rfl⟩ := exists_of_mem_numberAliases (hsub.subset ha)
    obtain ⟨p, -, rfl⟩ := List.mem_map.mp hb
    exact colon_not_mem_numberedAlias (not_mem_aliasBase (by decide) (by decide) maxLen p) k
  · intro j hj hpos
    exact aliasOf?_generate uris separators maxLen j hj
      (numberedAlias_generate_ne_empty uris separators maxLen j hj hpos)
  · intro p _
    exact ⟨aliasBase_chars maxLen p, aliasBase_length_le maxLen p,
      fun h => aliasBase_ne_empty h p⟩
  · intro h
    subst h
    exact generate_entries_zero uris separators

-- with maximal length zero the first prefix has the empty alias and is left out
example :
    (generate ["http://a.org/x", "http://b.org/y", "http://a.org/deep/z"] "/#" 0).entries =
      [("http://b.org/", "_1")] := by
  decide

end EntityGraph.PrefixMap
