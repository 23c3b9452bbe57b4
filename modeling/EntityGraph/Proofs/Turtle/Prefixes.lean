import Mathlib
import EntityGraph.Render.Turtle
import EntityGraph.Proofs.Prefix.Shorten

/-! # Prefixed names in Turtle

The Turtle writer makes its own prefix table from a prefix map: the entries
whose alias is a valid prefix name, in order, with names made distinct from
the last entry to the first, each taking the first of `alias`, `alias_1`,
`alias_2`, … that the entries after it have not taken. The search for that
name has fuel for one more try than there are names taken, which always
suffices (`freeName_firstFree`). A term is written `name:local` by the
longest table prefix it starts with, which among prefixes of one IRI is the
greatest; in a map reached by adding and generating, whose prefixes are
distinct, this is the prefix the map's own `prefixOf?` finds whenever that
prefix's alias is usable. The main theorem is `turtle_prefixes`.
-/

namespace EntityGraph

namespace PrefixMap

/-! ## Reachable prefix maps -/

/-- The prefix maps reached from the empty one by adding prefixes, or
generated from IRIs. -/
inductive Reachable : PrefixMap → Prop
  | empty : Reachable empty
  | generate (uris : List String) (separators : String) (maxLen : Nat) :
      Reachable (generate uris separators maxLen)
  | add {m : PrefixMap} (long short : String) : Reachable m → Reachable (m.add long short)

/-- Adding keeps the prefixes distinct: a present prefix takes the new alias
in its place, and a new one goes at the end. -/
theorem nodup_fst_add {m : PrefixMap} (h : (m.entries.map Prod.fst).Nodup) (long short : String) :
    ((m.add long short).entries.map Prod.fst).Nodup := by
  unfold add
  split
  · exact h
  · split
    · have hfst : (m.entries.map fun e => if e.1 == long then (long, short) else e).map Prod.fst =
          m.entries.map Prod.fst := by
        rw [List.map_map]
        apply List.map_congr_left
        intro e _
        by_cases he : e.1 = long <;> simp [he]
      rw [hfst]
      exact h
    · rename_i hany
      rw [List.map_append, List.nodup_append]
      refine ⟨h, List.nodup_singleton _, ?_⟩
      intro a ha b hb hab
      simp only [List.map_cons, List.map_nil, List.mem_singleton] at hb
      subst hb hab
      obtain ⟨e, he, rfl⟩ := List.mem_map.mp ha
      exact absurd (List.any_eq_true.mpr ⟨e, he, by simp⟩) hany

theorem Reachable.nodup_fst {m : PrefixMap} (h : m.Reachable) : (m.entries.map Prod.fst).Nodup := by
  induction h with
  | empty => exact List.nodup_nil
  | generate uris separators maxLen => exact nodup_generate_fst uris separators maxLen
  | add long short _ ih => exact nodup_fst_add ih long short

end PrefixMap

namespace Turtle

open PrefixMap (numberedAlias startsWith dropChars)

/-! ## Numbered names -/

theorem numberedAlias_injective (base : String) : Function.Injective (numberedAlias base) := by
  intro i j h
  have hl := congrArg String.toList h
  rw [PrefixMap.toList_numberedAlias, PrefixMap.toList_numberedAlias] at hl
  have hs := List.append_cancel_left hl
  by_cases hi : i = 0 <;> by_cases hj : j = 0 <;> simp [hi, hj] at hs
  · omega
  · have hnum := congrArg (fun ds => Nat.ofDigitChars 10 ds 0) hs
    simpa using hnum

theorem numberedAlias_succ (base : String) (k : Nat) :
    numberedAlias base (k + 1) = base ++ "_" ++ toString (k + 1) := by
  simp [numberedAlias]

/-- A valid prefix name is an ASCII letter followed by ASCII letters, digits,
`_` and `-`. -/
theorem isPrefixName_iff (s : String) :
    isPrefixName s = true ↔ ∃ c cs, s.toList = c :: cs ∧ c.isAlpha = true ∧
      ∀ d ∈ cs, d.isAlphanum = true ∨ d = '_' ∨ d = '-' := by
  unfold isPrefixName
  cases hs : s.toList with
  | nil => simp
  | cons c cs => simp [or_assoc]

/-- A valid prefix name stays valid with a number appended. -/
theorem isPrefixName_numberedAlias {base : String} (h : isPrefixName base = true) (k : Nat) :
    isPrefixName (numberedAlias base k) = true := by
  unfold isPrefixName at h ⊢
  rw [PrefixMap.toList_numberedAlias]
  cases hb : base.toList with
  | nil => simp [hb] at h
  | cons c cs =>
    simp only [hb, Bool.and_eq_true, List.all_eq_true] at h
    simp only [List.cons_append, Bool.and_eq_true, List.all_append, List.all_eq_true]
    refine ⟨h.1, h.2, ?_⟩
    intro d hd
    split at hd
    · simp at hd
    · rcases List.mem_cons.mp hd with rfl | hd
      · simp
      · have := Nat.isDigit_of_mem_toDigits (by decide) (by decide) hd
        simp [Char.isAlphanum, this]

/-- Among `used.length + 1` numbers in a row one has a name not in `used`,
when distinct numbers have distinct names. -/
theorem exists_not_mem_of_injective {f : Nat → String} (hf : Function.Injective f)
    (used : List String) (start : Nat) :
    ∃ n, start ≤ n ∧ n < start + (used.length + 1) ∧ f n ∉ used := by
  by_contra hnone
  have hsub : (List.range' start (used.length + 1)).map f ⊆ used := by
    intro x hx
    obtain ⟨n, hn, rfl⟩ := List.mem_map.mp hx
    obtain ⟨h1, h2⟩ := List.mem_range'_1.mp hn
    by_contra hx
    exact hnone ⟨n, h1, h2, hx⟩
  have hnd : ((List.range' start (used.length + 1)).map f).Nodup :=
    (List.nodup_range' ..).map hf
  have hlen := (hnd.subperm hsub).length_le
  simp at hlen

/-! ## The first free name -/

/-- `name` is the first of `base`, `base_1`, `base_2`, … not in `taken`. -/
def FirstFree (taken : List String) (base name : String) : Prop :=
  ∃ n, name = numberedAlias base n ∧ name ∉ taken ∧ ∀ k < n, numberedAlias base k ∈ taken

/-- The search for a numbered name moves up from `k`, passes only taken
names, and stops at a free one unless its fuel runs out. -/
theorem seek_spec (taken : List String) (base : String) :
    ∀ fuel k, ∃ n, k ≤ n ∧ freeName.seek taken base fuel k = base ++ "_" ++ toString n ∧
      (∀ i, k ≤ i → i < n → base ++ "_" ++ toString i ∈ taken) ∧
      (base ++ "_" ++ toString n ∉ taken ∨ n = k + fuel) := by
  intro fuel
  induction fuel with
  | zero =>
    intro k
    exact ⟨k, le_refl _, rfl, fun i h1 h2 => by omega, Or.inr rfl⟩
  | succ fuel ih =>
    intro k
    simp only [freeName.seek]
    split
    · rename_i htaken
      obtain ⟨n, hle, hseek, hbelow, hstop⟩ := ih (k + 1)
      refine ⟨n, by omega, hseek, fun i h1 h2 => ?_, hstop.imp_right fun h => by omega⟩
      rcases Nat.eq_or_lt_of_le h1 with rfl | h1
      · simpa using htaken
      · exact hbelow i h1 h2
    · rename_i hfree
      exact ⟨k, le_refl _, rfl, fun i h1 h2 => by omega, Or.inl (by simpa using hfree)⟩

/-- The name chosen for an alias is the first free one: the search never
runs out of fuel. -/
theorem freeName_firstFree (taken : List String) (base : String) :
    FirstFree taken base (freeName taken base) := by
  unfold freeName
  split
  · rename_i htaken
    have htaken' : base ∈ taken := by simpa using htaken
    obtain ⟨n, hle, hseek, hbelow, hstop⟩ := seek_spec taken base (taken.length + 1) 1
    -- running out of fuel would make every name in the window taken
    have hfree : base ++ "_" ++ toString n ∉ taken := by
      rcases hstop with hfree | hend
      · exact hfree
      · obtain ⟨j, h1, h2, hj⟩ := exists_not_mem_of_injective (numberedAlias_injective base) taken 1
        have hj' : j = (j - 1) + 1 := by omega
        rw [hj', numberedAlias_succ, ← hj'] at hj
        exact absurd (hbelow j h1 (by omega)) hj
    have hn : n = (n - 1) + 1 := by omega
    refine ⟨n, by rw [hseek, hn, numberedAlias_succ, ← hn], by rwa [hseek], fun k hk => ?_⟩
    rcases Nat.eq_zero_or_pos k with rfl | hk0
    · simpa [numberedAlias] using htaken'
    · have hk' : k = (k - 1) + 1 := by omega
      rw [hk', numberedAlias_succ, ← hk']
      exact hbelow k hk0 hk
  · rename_i hfree
    exact ⟨0, by simp [numberedAlias], by simpa using hfree, fun k hk => absurd hk (Nat.not_lt_zero k)⟩

/-! ## The prefix table -/

/-- The table of some usable entries, named from the last entry to the
first: each takes the first free name after the names of the entries after
it. -/
def nameTable : List (String × String) → List (String × String)
  | [] => []
  | e :: es => (e.1, freeName ((nameTable es).map Prod.snd) e.2) :: nameTable es

/-- The writer's fold over the reversed entries builds the same table, with
the names taken so far beside it. -/
theorem foldl_reverse_eq_nameTable (L : List (String × String)) :
    L.reverse.foldl
        (fun (acc : List String × List (String × String)) (e : String × String) =>
          (freeName acc.1 e.2 :: acc.1, (e.1, freeName acc.1 e.2) :: acc.2)) ([], []) =
      ((nameTable L).map Prod.snd, nameTable L) := by
  induction L with
  | nil => rfl
  | cons e es ih => simp [List.foldl_append, ih, nameTable]

theorem prefixTable_eq (m : PrefixMap) :
    prefixTable m = nameTable (m.entries.filter fun e => isPrefixName e.2) := by
  simp only [prefixTable]
  rw [foldl_reverse_eq_nameTable]

@[simp] theorem map_fst_nameTable (L : List (String × String)) :
    (nameTable L).map Prod.fst = L.map Prod.fst := by
  induction L with
  | nil => rfl
  | cons e es ih => simp [nameTable, ih]

theorem nodup_snd_nameTable (L : List (String × String)) : ((nameTable L).map Prod.snd).Nodup := by
  induction L with
  | nil => exact List.nodup_nil
  | cons e es ih =>
    obtain ⟨_, _, hfree, _⟩ := freeName_firstFree ((nameTable es).map Prod.snd) e.2
    simp only [nameTable, List.map_cons, List.nodup_cons]
    exact ⟨hfree, ih⟩

theorem isPrefixName_of_mem_nameTable {L : List (String × String)}
    (h : ∀ e ∈ L, isPrefixName e.2 = true) : ∀ e ∈ nameTable L, isPrefixName e.2 = true := by
  induction L with
  | nil => simp [nameTable]
  | cons e es ih =>
    intro x hx
    rcases List.mem_cons.mp hx with rfl | hx
    · obtain ⟨n, hn, -, -⟩ := freeName_firstFree ((nameTable es).map Prod.snd) e.2
      rw [hn]
      exact isPrefixName_numberedAlias (h e List.mem_cons_self) n
    · exact ih (fun y hy => h y (List.mem_cons_of_mem _ hy)) x hx

/-- Entry `i` of the table keeps the prefix of entry `i` and takes the first
free name for its alias after the names of the entries after it. -/
theorem getElem?_nameTable {L : List (String × String)} {i : Nat} {e : String × String}
    (h : (nameTable L)[i]? = some e) :
    ∃ a, L[i]? = some (e.1, a) ∧ FirstFree (((nameTable L).drop (i + 1)).map Prod.snd) a e.2 := by
  induction L generalizing i with
  | nil => simp [nameTable] at h
  | cons x xs ih =>
    cases i with
    | zero =>
      simp only [nameTable, List.getElem?_cons_zero, Option.some.injEq] at h
      subst h
      exact ⟨x.2, by simp, by simpa [nameTable] using freeName_firstFree _ x.2⟩
    | succ i =>
      simp only [nameTable, List.getElem?_cons_succ] at h
      obtain ⟨a, ha, hfree⟩ := ih h
      exact ⟨a, by simpa using ha, by simpa [nameTable] using hfree⟩

/-! ## The longest prefix -/

/-- What the search finds: an entry whose prefix starts the IRI and is at
least as long as every other prefix of the table that does; nothing only
when no prefix fits. -/
theorem lookup_spec (T : List (String × String)) (uri : String) :
    (∀ e, lookup T uri = some e → e ∈ T ∧ startsWith uri e.1 = true ∧
      ∀ q ∈ T, startsWith uri q.1 = true → q.1.length ≤ e.1.length) ∧
    (lookup T uri = none → ∀ q ∈ T, startsWith uri q.1 = false) := by
  induction T using List.reverseRecOn with
  | nil => simp [lookup]
  | append_singleton T x ih =>
    simp only [lookup] at ih ⊢
    rw [List.foldl_append, List.foldl_cons, List.foldl_nil]
    generalize T.foldl _ none = best at ih ⊢
    obtain ⟨hsome, hnone⟩ := ih
    simp only [List.mem_append, List.mem_singleton]
    cases hx : startsWith uri x.1
    case false =>
      simp only [Bool.false_eq_true, if_false]
      refine ⟨fun e he => ?_, fun hb q hq => ?_⟩
      · obtain ⟨hmem, hstart, hlong⟩ := hsome e he
        refine ⟨.inl hmem, hstart, fun q hq hqs => ?_⟩
        rcases hq with hq | rfl
        · exact hlong q hq hqs
        · simp [hx] at hqs
      · rcases hq with hq | rfl
        · exact hnone hb q hq
        · exact hx
    case true =>
      cases best with
      | none =>
        -- no earlier prefix fits, so `x` is the longest
        refine ⟨fun e he => ?_, fun hb => by simp at hb⟩
        simp only [if_true, Option.some.injEq] at he
        subst he
        refine ⟨.inr rfl, hx, fun q hq hqs => ?_⟩
        rcases hq with hq | rfl
        · simp [hnone rfl q hq] at hqs
        · exact le_refl _
      | some b =>
        obtain ⟨hbmem, hbstart, hblong⟩ := hsome b rfl
        refine ⟨fun e he => ?_, fun hb => by simp at hb; split at hb <;> simp at hb⟩
        simp only [if_true] at he
        split at he
        · rename_i hlt
          simp only [Option.some.injEq] at he
          subst he
          refine ⟨.inr rfl, hx, fun q hq hqs => ?_⟩
          rcases hq with hq | rfl
          · exact le_of_lt (lt_of_le_of_lt (hblong q hq hqs) hlt)
          · exact le_refl _
        · rename_i hge
          simp only [Option.some.injEq] at he
          subst he
          refine ⟨.inl hbmem, hbstart, fun q hq hqs => ?_⟩
          rcases hq with hq | rfl
          · exact hblong q hq hqs
          · omega

/-- A map finds a prefix the way the table does: `prefixOf?` is the search
over the map's entries. -/
theorem prefixOf?_mk (T : List (String × String)) (uri : String) :
    (PrefixMap.mk T).prefixOf? uri = (lookup T uri).map Prod.fst := by
  induction T using List.reverseRecOn with
  | nil => rfl
  | append_singleton T x ih =>
    simp only [PrefixMap.prefixOf?, lookup] at ih ⊢
    rw [List.map_append, List.foldl_append, List.foldl_append, ih]
    simp only [List.map_cons, List.map_nil, List.foldl_cons, List.foldl_nil]
    generalize T.foldl _ none = best
    cases best with
    | none => by_cases hx : startsWith uri x.1 <;> simp [hx]
    | some b =>
      by_cases hx : startsWith uri x.1
      · simp only [hx, if_true, Option.map_some]
        split <;> rfl
      · simp [hx]

/-- Of two prefixes of one IRI the longer is the greater. -/
theorem le_of_startsWith {uri p q : String} (hq : startsWith uri q = true)
    (hp : startsWith uri p = true) (hl : q.length ≤ p.length) : q ≤ p := by
  have hpre : q.toList <+: p.toList :=
    List.prefix_of_prefix_length_le (PrefixMap.startsWith_iff.mp hq) (PrefixMap.startsWith_iff.mp hp)
      (by rw [String.length_toList, String.length_toList]; exact hl)
  -- the order of strings is the order of their characters
  show ¬p < q
  rw [String.lt_iff_toList_lt]
  exact hpre.le

/-- The entry the search finds has the greatest prefix of those that fit. -/
theorem lookup_greatest {T : List (String × String)} {uri : String} {e : String × String}
    (h : lookup T uri = some e) : ∀ q ∈ T, startsWith uri q.1 = true → q.1 ≤ e.1 := by
  obtain ⟨-, hstart, hlong⟩ := (lookup_spec T uri).1 e h
  exact fun q hq hqs => le_of_startsWith hqs hstart (hlong q hq hqs)

theorem startsWith_append (p loc : String) : startsWith (p ++ loc) p = true :=
  PrefixMap.startsWith_iff.mpr ⟨loc.toList, by simp⟩

/-- With distinct prefixes, the search finds the entry whose prefix is the
greatest of those that fit. -/
theorem lookup_eq_of_greatest {T : List (String × String)} (hnd : (T.map Prod.fst).Nodup)
    {uri p name : String} (hmem : (p, name) ∈ T) (hp : startsWith uri p = true)
    (hgreat : ∀ q ∈ T, startsWith uri q.1 = true → q.1 ≤ p) : lookup T uri = some (p, name) := by
  cases hl : lookup T uri with
  | none => simp [(lookup_spec T uri).2 hl _ hmem] at hp
  | some e =>
    obtain ⟨hemem, hestart, hlong⟩ := (lookup_spec T uri).1 e hl
    have hle : p ≤ e.1 := le_of_startsWith hp hestart (hlong _ hmem hp)
    have heq : e.1 = p := le_antisymm (hgreat e hemem hestart) hle
    rw [List.inj_on_of_nodup_map hnd hemem hmem heq]

/-! ## Terms -/

/-- An IRI that is no blank node is written `name:local` by the table entry
with the greatest prefix it starts with, the rest being a valid local name;
otherwise, when no prefix fits or the rest is no valid local name, it is
written as an IRI reference. -/
theorem term_cases {T : List (String × String)} {uri : String}
    (h : startsWith uri "_:" = false) :
    (∃ p name loc, (p, name) ∈ T ∧ p ++ loc = uri ∧
      (∀ q ∈ T, startsWith uri q.1 = true → q.1 ≤ p) ∧ isLocalName loc = true ∧
      term T uri = name ++ ":" ++ loc) ∨
    (term T uri = iriRef uri ∧
      ∀ p name loc, (p, name) ∈ T → p ++ loc = uri →
        (∀ q ∈ T, startsWith uri q.1 = true → q.1 ≤ p) → isLocalName loc = false) := by
  cases hl : lookup T uri with
  | none =>
    refine .inr ⟨by simp [term, h, hl], fun p name loc hmem heq _ => ?_⟩
    have := (lookup_spec T uri).2 hl _ hmem
    rw [← heq, startsWith_append] at this
    cases this
  | some e =>
    obtain ⟨p, name⟩ := e
    obtain ⟨hmem, hstart, -⟩ := (lookup_spec T uri).1 _ hl
    have hsplit : p ++ dropChars uri p.length = uri := PrefixMap.append_dropChars hstart
    by_cases hloc : isLocalName (dropChars uri p.length) = true
    · exact .inl ⟨p, name, _, hmem, hsplit, lookup_greatest hl, hloc, by simp [term, h, hl, hloc]⟩
    · refine .inr ⟨by simp [term, h, hl, hloc], fun p' name' loc' hmem' heq' hgreat' => ?_⟩
      -- the greatest fitting prefix is the one found, so the rest is the same
      have hp'start : startsWith uri p' = true := heq' ▸ startsWith_append p' loc'
      have hpp : p' = p := le_antisymm (lookup_greatest hl _ hmem' hp'start) (hgreat' _ hmem hstart)
      subst hpp
      have hloc' : loc' = dropChars uri p'.length :=
        String.toList_injective (List.append_cancel_left (by
          rw [← String.toList_append, ← String.toList_append, heq', hsplit]))
      simpa [hloc'] using hloc

/-! ## The table of a reachable map -/

section Reachable

variable {m : PrefixMap}

theorem map_fst_prefixTable (m : PrefixMap) :
    (prefixTable m).map Prod.fst = (m.entries.filter fun e => isPrefixName e.2).map Prod.fst := by
  rw [prefixTable_eq, map_fst_nameTable]

/-- The table's prefixes are some of the map's, so they are distinct when the
map's are. -/
theorem nodup_fst_prefixTable (hm : m.Reachable) : ((prefixTable m).map Prod.fst).Nodup := by
  rw [map_fst_prefixTable]
  exact hm.nodup_fst.sublist (List.filter_sublist.map Prod.fst)

/-- When the prefix a map finds for an IRI has a usable alias, the table
finds that prefix too. -/
theorem lookup_prefixTable (hm : m.Reachable) {uri p a : String} (hp : m.prefixOf? uri = some p)
    (ha : m.aliasOf? p = some a) (hu : isPrefixName a = true) :
    ∃ name, (p, name) ∈ prefixTable m ∧ lookup (prefixTable m) uri = some (p, name) := by
  have hnd := hm.nodup_fst
  -- the map's own search finds the registered entry of `p`, the longest fit
  obtain ⟨⟨p', a'⟩, hl, hpp⟩ : ∃ e, lookup m.entries uri = some e ∧ e.1 = p :=
    Option.map_eq_some_iff.mp ((prefixOf?_mk m.entries uri).symm.trans hp)
  subst hpp
  obtain ⟨hmem, hstart, hlong⟩ := (lookup_spec m.entries uri).1 _ hl
  have haa : a' = a := by
    rw [PrefixMap.aliasOf?_eq_of_mem hnd hmem] at ha
    exact Option.some.inj ha
  subst haa
  -- the entry is usable, so the table holds its prefix under some name
  have hfst : p' ∈ (prefixTable m).map Prod.fst := by
    rw [map_fst_prefixTable]
    exact List.mem_map.mpr ⟨(p', a'), List.mem_filter.mpr ⟨hmem, hu⟩, rfl⟩
  obtain ⟨⟨p'', name⟩, hmem', hpp⟩ := List.mem_map.mp hfst
  simp only at hpp
  subst hpp
  refine ⟨name, hmem', lookup_eq_of_greatest (nodup_fst_prefixTable hm) hmem' hstart ?_⟩
  intro q hq hqs
  have hqm : q.1 ∈ m.entries.map Prod.fst := by
    have : q.1 ∈ (prefixTable m).map Prod.fst := List.mem_map_of_mem hq
    rw [map_fst_prefixTable] at this
    exact (List.filter_sublist.map Prod.fst).subset this
  obtain ⟨q', hq', hqq⟩ := List.mem_map.mp hqm
  rw [← hqq] at hqs ⊢
  exact le_of_startsWith hqs hstart (hlong q' hq' hqs)

end Reachable

/-! ## IRI references -/

/-- The uppercase hexadecimal digit of a number below sixteen. -/
def hexDigitUpper (d : Nat) : Char := if d < 10 then Char.ofNat (48 + d) else Char.ofNat (55 + d)

theorem toNat_lt_of_needsEscape {c : Char} (h : needsEscape c = true) : c.toNat < 128 := by
  have hlist : "<>\"\x7b\x7d|^`\\".toList = ['<', '>', '"', '\x7b', '\x7d', '|', '^', '\x60', '\\'] := by
    decide
  simp only [needsEscape, Bool.or_eq_true, decide_eq_true_eq, List.contains_iff_mem, hlist,
    List.mem_cons, List.not_mem_nil, or_false] at h
  rcases h with h | h
  · omega
  · rcases h with rfl | rfl | rfl | rfl | rfl | rfl | rfl | rfl | rfl <;> decide

/-- An escaped character is written with four uppercase hexadecimal digits,
the most significant first. -/
theorem hex4Upper_of_needsEscape {c : Char} (h : needsEscape c = true) :
    (hex4Upper c.toNat).toList =
      [hexDigitUpper (c.toNat / 4096), hexDigitUpper (c.toNat / 256 % 16),
        hexDigitUpper (c.toNat / 16 % 16), hexDigitUpper (c.toNat % 16)] := by
  have hall : ∀ n < 128, (hex4Upper n).toList =
      [hexDigitUpper (n / 4096), hexDigitUpper (n / 256 % 16), hexDigitUpper (n / 16 % 16),
        hexDigitUpper (n % 16)] := by
    decide
  exact hall c.toNat (toNat_lt_of_needsEscape h)

/-- An IRI reference is the IRI in angle brackets, each character that needs
it written as `\u` and four uppercase hexadecimal digits of its code point. -/
theorem toList_iriRef (uri : String) :
    (iriRef uri).toList = '<' :: (uri.toList.flatMap fun c =>
      if needsEscape c then
        ['\\', 'u', hexDigitUpper (c.toNat / 4096), hexDigitUpper (c.toNat / 256 % 16),
          hexDigitUpper (c.toNat / 16 % 16), hexDigitUpper (c.toNat % 16)]
      else [c]) ++ ['>'] := by
  have hopen : "<".toList = ['<'] := by decide
  have hclose : ">".toList = ['>'] := by decide
  simp only [iriRef, String.toList_append, String.toList_join, List.flatMap_map, hopen, hclose,
    List.singleton_append]
  congr 2
  apply List.flatMap_congr
  intro c _
  split
  · rename_i hc
    simp [hex4Upper_of_needsEscape hc]
  · simp

/-- How an IRI is written once the search has found its entry. -/
theorem term_of_lookup {T : List (String × String)} {uri p name : String}
    (h : startsWith uri "_:" = false) (hl : lookup T uri = some (p, name)) :
    term T uri = if isLocalName (dropChars uri p.length) = true
      then name ++ ":" ++ dropChars uri p.length else iriRef uri := by
  simp [term, h, hl]

/-- The text opens with one `@prefix` line per table entry, in order. -/
theorem toTurtle_header (d : Statements) (m : PrefixMap) :
    ∃ rest, d.toTurtle m = String.join ((prefixTable m).map fun e =>
      "@prefix " ++ e.2 ++ ": " ++ iriRef e.1 ++ " .\n") ++ rest :=
  ⟨_, by simp only [Statements.toTurtle, String.append_assoc]; rfl⟩

/-! ## The writer's prefixes -/

/-- What the Turtle text of statements `d` under a prefix map `m` does with
prefixes. -/
structure PrefixTableSpec (m : PrefixMap) (d : Statements) : Prop where
  /-- The table's prefixes are the map's prefixes with a usable alias, in order. -/
  prefixes : (prefixTable m).map Prod.fst = (m.entries.filter fun e => isPrefixName e.2).map Prod.fst
  /-- No two entries share a name. -/
  names_nodup : ((prefixTable m).map Prod.snd).Nodup
  /-- Every name is a valid prefix name. -/
  names_valid : ∀ e ∈ prefixTable m, ∃ c cs, e.2.toList = c :: cs ∧ c.isAlpha = true ∧
    ∀ x ∈ cs, x.isAlphanum = true ∨ x = '_' ∨ x = '-'
  /-- Entry `i` is named by the first numbered form of its alias that the
  entries after it have not taken: the search for it never gives up. -/
  first_free : ∀ i e, (prefixTable m)[i]? = some e → ∃ a,
    (m.entries.filter fun e => isPrefixName e.2)[i]? = some (e.1, a) ∧
    FirstFree (((prefixTable m).drop (i + 1)).map Prod.snd) a e.2
  /-- The text opens with the table's `@prefix` lines. -/
  header : ∃ rest, d.toTurtle m = String.join ((prefixTable m).map fun e =>
    "@prefix " ++ e.2 ++ ": " ++ iriRef e.1 ++ " .\n") ++ rest
  /-- An IRI that is no blank node is written by the entry with the greatest
  prefix it starts with, or else as an IRI reference. -/
  term_forms : ∀ uri, startsWith uri "_:" = false →
    (∃ p name loc, (p, name) ∈ prefixTable m ∧ p ++ loc = uri ∧
      (∀ q ∈ prefixTable m, startsWith uri q.1 = true → q.1 ≤ p) ∧ isLocalName loc = true ∧
      term (prefixTable m) uri = name ++ ":" ++ loc) ∨
    (term (prefixTable m) uri = iriRef uri ∧
      ∀ p name loc, (p, name) ∈ prefixTable m → p ++ loc = uri →
        (∀ q ∈ prefixTable m, startsWith uri q.1 = true → q.1 ≤ p) → isLocalName loc = false)
  /-- The prefix the map finds for an IRI, when its alias is usable, is the one
  the IRI is written by. -/
  prefixOf_used : ∀ uri p a, startsWith uri "_:" = false → m.prefixOf? uri = some p →
    m.aliasOf? p = some a → isPrefixName a = true → ∃ name, (p, name) ∈ prefixTable m ∧
      term (prefixTable m) uri = if isLocalName (dropChars uri p.length) = true
        then name ++ ":" ++ dropChars uri p.length else iriRef uri
  /-- An IRI reference escapes exactly the characters that need it, as `\u`
  and four uppercase hexadecimal digits. -/
  iriRef_chars : ∀ uri, (iriRef uri).toList = '<' :: (uri.toList.flatMap fun c =>
    if needsEscape c then
      ['\\', 'u', hexDigitUpper (c.toNat / 4096), hexDigitUpper (c.toNat / 256 % 16),
        hexDigitUpper (c.toNat / 16 % 16), hexDigitUpper (c.toNat % 16)]
    else [c]) ++ ['>']

/-- The Turtle writer's prefixes, for every map reached by adding and
generating and all statements. -/
theorem turtle_prefixes {m : PrefixMap} (hm : m.Reachable) (d : Statements) :
    PrefixTableSpec m d where
  prefixes := map_fst_prefixTable m
  names_nodup := by
    rw [prefixTable_eq]
    exact nodup_snd_nameTable _
  names_valid := by
    intro e he
    rw [prefixTable_eq] at he
    refine (isPrefixName_iff e.2).mp (isPrefixName_of_mem_nameTable (fun x hx => ?_) e he)
    exact (List.mem_filter.mp hx).2
  first_free := by
    intro i e he
    rw [prefixTable_eq] at he ⊢
    exact getElem?_nameTable he
  header := toTurtle_header d m
  term_forms := fun _ h => term_cases h
  prefixOf_used := by
    intro uri p a h hp ha hu
    obtain ⟨name, hmem, hl⟩ := lookup_prefixTable hm hp ha hu
    exact ⟨name, hmem, term_of_lookup h hl⟩
  iriRef_chars := toList_iriRef

/-- Aliases that collide are numbered past the names already taken: `a` of
the last entry keeps its name, the first entry's `a` skips the taken `a_1`. -/
theorem turtle_prefixes_taken_aliases :
    (((PrefixMap.empty.add "http://one.org/" "a").add "http://two.org/" "a_1").add
        "http://three.org/" "a").Reachable ∧
      PrefixTableSpec (((PrefixMap.empty.add "http://one.org/" "a").add "http://two.org/" "a_1").add
        "http://three.org/" "a") ⟨[⟨"http://one.org/x", "http://two.org/y", "_:b0"⟩], []⟩ :=
  ⟨.add _ _ (.add _ _ (.add _ _ .empty)),
    turtle_prefixes (.add _ _ (.add _ _ (.add _ _ .empty))) _⟩

end Turtle

end EntityGraph
