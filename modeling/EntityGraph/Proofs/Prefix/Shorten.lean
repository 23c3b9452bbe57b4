import Mathlib
import EntityGraph.Proofs.Prefix.Generate

/-! # Shortening and expanding IRIs

`shorten` writes an IRI as `alias:rest` by the longest registered prefix it
starts with, and `expand?` splits a short name at its first colon and looks
the alias up. The two undo each other as soon as no alias has a colon (the
split then falls right after the alias) and no two prefixes share an alias
(the lookup then finds the prefix the IRI was shortened with). That is all
the round trip needs: it holds in every map with these two properties, in
particular in every generated one (`generate_aliases`), and for every IRI,
not only those the map was generated from.
-/

namespace EntityGraph.PrefixMap

/-! ## Finding the prefix and its alias -/

/-- The prefix found for an IRI is a registered prefix it starts with. -/
theorem prefixOf?_mem {m : PrefixMap} {u p : String} (h : m.prefixOf? u = some p) :
    p ∈ m.entries.map Prod.fst ∧ startsWith u p = true := by
  revert h
  unfold prefixOf?
  -- the best match so far is always a registered prefix of `u`
  apply List.foldlRecOn (motive := fun best : Option String =>
    best = some p → p ∈ m.entries.map Prod.fst ∧ startsWith u p = true)
  · intro h
    cases h
  · intro best ih q hq
    split
    · rename_i hstart
      split
      · split
        · intro h
          cases h
          exact ⟨hq, hstart⟩
        · exact ih
      · intro h
        cases h
        exact ⟨hq, hstart⟩
    · exact ih

/-- A registered prefix has an alias, registered together with it. -/
theorem exists_aliasOf?_of_mem {m : PrefixMap} {p : String} (h : p ∈ m.entries.map Prod.fst) :
    ∃ a, m.aliasOf? p = some a ∧ (p, a) ∈ m.entries := by
  obtain ⟨e0, he0, rfl⟩ := List.mem_map.mp h
  obtain ⟨e, he⟩ := Option.isSome_iff_exists.mp
    (List.find?_isSome.mpr ⟨e0, he0, by simp⟩ : (m.entries.find? (·.1 == e0.1)).isSome)
  have hkey : e.1 = e0.1 := by simpa using List.find?_some he
  refine ⟨e.2, by simp [aliasOf?, he], ?_⟩
  rw [← hkey]
  exact List.mem_of_find?_eq_some he

/-! ## Splitting a short name -/

/-- A name without a colon, a colon and a rest split back into the name and
the rest. -/
theorem splitColon?_append {a rest : String} (ha : ':' ∉ a.toList) :
    splitColon? (a ++ ":" ++ rest) = some (a, rest) := by
  have hcolon : ":".toList = [':'] := by simp
  have hcs : (a ++ ":" ++ rest).toList = a.toList ++ ':' :: rest.toList := by
    simp [hcolon]
  have htake : (a.toList ++ ':' :: rest.toList).takeWhile (· != ':') = a.toList := by
    rw [List.takeWhile_append_of_pos (forall_bne_of_not_mem ha)]
    simp
  simp only [splitColon?, hcs, htake, List.length_append, List.length_cons]
  rw [if_neg (by omega)]
  simp

/-- The rest of an IRI after a prefix it starts with. -/
theorem append_dropChars {u p : String} (h : startsWith u p = true) :
    p ++ dropChars u p.length = u := by
  obtain ⟨t, ht⟩ := startsWith_iff.mp h
  apply String.toList_injective
  simp [dropChars, ← ht, ← String.length_toList]

/-! ## The round trip -/

/-- In a prefix map whose aliases are pairwise distinct and colon-free,
every IRI `u` that some registered prefix fits is shortened to
`alias:rest` by the prefix `p` found for it and its alias, and expands back
to `u`; an IRI that no prefix fits is left as it is. -/
theorem shorten_expand (m : PrefixMap) (hd : (m.entries.map Prod.snd).Nodup)
    (hc : ∀ a ∈ m.entries.map Prod.snd, ':' ∉ a.toList) (u : String) :
    (∀ p, m.prefixOf? u = some p →
      ∃ a, m.aliasOf? p = some a ∧ m.shorten u = a ++ ":" ++ dropChars u p.length ∧
        m.expand? (m.shorten u) = some u) ∧
    (m.prefixOf? u = none → m.shorten u = u) := by
  refine ⟨fun p hp => ?_, fun hp => by simp [shorten, hp]⟩
  obtain ⟨hkey, hstart⟩ := prefixOf?_mem hp
  obtain ⟨a, ha, hmem⟩ := exists_aliasOf?_of_mem hkey
  have hshort : m.shorten u = a ++ ":" ++ dropChars u p.length := by
    simp [shorten, hp, ha]
  refine ⟨a, ha, hshort, ?_⟩
  have hca : ':' ∉ a.toList := hc a (List.mem_map.mpr ⟨(p, a), hmem, rfl⟩)
  -- the alias is unique, so the lookup by alias finds `(p, a)` again
  have hfind : m.entries.find? (·.2 == a) = some (p, a) :=
    find?_key_eq_of_mem Prod.snd hd hmem
  rw [hshort, expand?, splitColon?_append hca]
  simp [hfind, append_dropChars hstart]

/-- The round trip in a generated map, for an IRI it was not generated
from. -/
theorem shorten_expand_generated :
    ((generate ["http://a.org/x", "http://b.org/y"] "/#" 30).entries.map Prod.snd).Nodup ∧
    (∀ a ∈ (generate ["http://a.org/x", "http://b.org/y"] "/#" 30).entries.map Prod.snd,
      ':' ∉ a.toList) ∧
    (∀ p, (generate ["http://a.org/x", "http://b.org/y"] "/#" 30).prefixOf?
        "http://a.org/deep/z" = some p →
      ∃ a, (generate ["http://a.org/x", "http://b.org/y"] "/#" 30).aliasOf? p = some a ∧
        (generate ["http://a.org/x", "http://b.org/y"] "/#" 30).shorten "http://a.org/deep/z" =
          a ++ ":" ++ dropChars "http://a.org/deep/z" p.length ∧
        (generate ["http://a.org/x", "http://b.org/y"] "/#" 30).expand?
          ((generate ["http://a.org/x", "http://b.org/y"] "/#" 30).shorten
            "http://a.org/deep/z") = some "http://a.org/deep/z") ∧
    ((generate ["http://a.org/x", "http://b.org/y"] "/#" 30).prefixOf? "http://a.org/deep/z" =
        none →
      (generate ["http://a.org/x", "http://b.org/y"] "/#" 30).shorten "http://a.org/deep/z" =
        "http://a.org/deep/z") :=
  ⟨by decide, by decide,
    shorten_expand (generate ["http://a.org/x", "http://b.org/y"] "/#" 30) (by decide) (by decide)
      "http://a.org/deep/z"⟩

end EntityGraph.PrefixMap
