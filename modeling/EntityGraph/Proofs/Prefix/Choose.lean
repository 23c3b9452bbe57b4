import Mathlib
import EntityGraph.Prefix.Generate

/-! # The chosen prefixes are the minimal candidates

Merging candidates one at a time, where a new candidate evicts the listed
prefixes that extend it and is dropped when a listed prefix is a prefix of
it, ends in a list that depends on the candidates only: the candidates that
no other candidate is a proper prefix of, once each, in the order they first
occur (`choosePrefixes_eq_minimalCandidates`). The invariant is that list
itself: one merge step turns the minimal candidates of `cs` into those of
`cs ++ [p]` (`mergeCandidate_minimalCandidates`). No chosen prefix is then a
prefix of another, and every IRI with a separator starts with a chosen one.
-/

namespace EntityGraph.PrefixMap

/-! ## Starting with a prefix -/

theorem startsWith_iff {s p : String} : startsWith s p = true ↔ p.toList <+: s.toList :=
  List.isPrefixOf_iff_prefix

@[simp] theorem startsWith_self (s : String) : startsWith s s = true :=
  startsWith_iff.mpr (List.prefix_refl _)

theorem startsWith_trans {a b c : String} (hab : startsWith a b = true)
    (hbc : startsWith b c = true) : startsWith a c = true :=
  startsWith_iff.mpr ((startsWith_iff.mp hbc).trans (startsWith_iff.mp hab))

theorem eq_of_startsWith_of_startsWith {a b : String} (hab : startsWith a b = true)
    (hba : startsWith b a = true) : a = b := by
  have h1 := (startsWith_iff.mp hab).length_le
  have h2 := startsWith_iff.mp hba
  exact String.toList_injective (h2.eq_of_length (Nat.le_antisymm h2.length_le h1))

theorem length_lt_of_startsWith {a b : String} (hab : startsWith a b = true) (hne : b ≠ a) :
    b.toList.length < a.toList.length := by
  have hp := startsWith_iff.mp hab
  rcases Nat.lt_or_eq_of_le hp.length_le with hlt | heq
  · exact hlt
  · exact absurd (String.toList_injective (hp.eq_of_length heq)) hne

/-! ## First occurrences -/

theorem eraseDups_append_singleton {α : Type} [BEq α] [LawfulBEq α] (xs : List α) (x : α) :
    (xs ++ [x]).eraseDups = xs.eraseDups ++ if x ∈ xs then [] else [x] := by
  rw [List.eraseDups_append]
  by_cases hx : x ∈ xs
  · simp [List.removeAll, hx]
  · simp [List.removeAll, hx, List.eraseDups_cons]

theorem nodup_eraseDups {α : Type} [BEq α] [LawfulBEq α] (xs : List α) : xs.eraseDups.Nodup := by
  induction xs using List.reverseRecOn with
  | nil => simp
  | append_singleton xs x ih =>
    rw [eraseDups_append_singleton]
    by_cases hx : x ∈ xs
    · simpa [hx] using ih
    · have hne : ∀ a ∈ xs, a ≠ x := fun a ha h => hx (h ▸ ha)
      simpa [hx, List.nodup_append, List.mem_eraseDups] using ⟨ih, hne⟩

/-! ## Minimal candidates -/

/-- The candidate prefixes of some IRIs, in order, one for each IRI that has
a separator. -/
def candidates (separators : List Char) (uris : List String) : List String :=
  uris.filterMap (candidate separators)

/-- No candidate other than `c` itself is a prefix of `c`. -/
def IsMinimal (cs : List String) (c : String) : Prop :=
  ∀ c' ∈ cs, startsWith c c' = true → c' = c

instance (cs : List String) : DecidablePred (IsMinimal cs) := fun c =>
  inferInstanceAs (Decidable (∀ c' ∈ cs, startsWith c c' = true → c' = c))

/-- The minimal candidates, once each, in the order they first occur. -/
def minimalCandidates (cs : List String) : List String :=
  cs.eraseDups.filter fun c => decide (IsMinimal cs c)

theorem mem_minimalCandidates {cs : List String} {c : String} :
    c ∈ minimalCandidates cs ↔ c ∈ cs ∧ IsMinimal cs c := by
  simp [minimalCandidates, List.mem_eraseDups]

theorem isMinimal_append_singleton {cs : List String} {p c : String} :
    IsMinimal (cs ++ [p]) c ↔ IsMinimal cs c ∧ (startsWith c p = true → p = c) := by
  simp only [IsMinimal, List.mem_append, List.mem_singleton, or_imp, forall_and,
    forall_eq]

/-- Below every candidate lies a minimal one: follow proper prefixes, which
are shorter, until none is left. -/
theorem exists_minimal_below (cs : List String) :
    ∀ c ∈ cs, ∃ m ∈ cs, startsWith c m = true ∧ IsMinimal cs m := by
  intro c
  induction c using (measure fun s : String => s.toList.length).wf.induction with
  | _ c ih =>
  intro hc
  by_cases hmin : IsMinimal cs c
  · exact ⟨c, hc, startsWith_self c, hmin⟩
  · obtain ⟨c', hc', hpre, hne⟩ : ∃ c' ∈ cs, startsWith c c' = true ∧ c' ≠ c := by
      simpa [IsMinimal] using hmin
    obtain ⟨m, hm, hc'm, hmin'⟩ := ih c' (length_lt_of_startsWith hpre hne) hc'
    exact ⟨m, hm, startsWith_trans hpre hc'm, hmin'⟩

theorem IsMinimal.of_startsWith {cs : List String} {old p : String} (hold : IsMinimal cs old)
    (h : startsWith old p = true) : IsMinimal cs p := by
  intro c hc hpc
  have hco : c = old := hold c hc (startsWith_trans h hpc)
  subst hco
  exact eq_of_startsWith_of_startsWith h hpc

/-- Below a candidate that is not minimal lies a minimal one that is not
above it. -/
theorem exists_minimalCandidate_below {cs : List String} {p : String} (hmin : ¬IsMinimal cs p) :
    ∃ m ∈ minimalCandidates cs, startsWith p m = true ∧ startsWith m p = false := by
  obtain ⟨c, hc, hpc, -⟩ : ∃ c ∈ cs, startsWith p c = true ∧ c ≠ p := by
    simpa [IsMinimal] using hmin
  obtain ⟨m, hm, hcm, hmmin⟩ := exists_minimal_below cs c hc
  refine ⟨m, mem_minimalCandidates.mpr ⟨hm, hmmin⟩, startsWith_trans hpc hcm, ?_⟩
  cases hmp : startsWith m p with
  | false => rfl
  | true => exact absurd (hmmin.of_startsWith hmp) hmin

theorem minimalCandidates_append_of_mem {cs : List String} {p : String} (hp : p ∈ cs) :
    minimalCandidates (cs ++ [p]) = minimalCandidates cs := by
  unfold minimalCandidates
  rw [eraseDups_append_singleton, if_pos hp, List.append_nil]
  apply List.filter_congr
  intro c _
  simp only [decide_eq_decide, isMinimal_append_singleton]
  exact ⟨fun h => h.1, fun h => ⟨h, h p hp⟩⟩

/-- A new candidate removes the minimal candidates that extend it, and is
itself minimal or not. -/
theorem minimalCandidates_append_of_not_mem {cs : List String} {p : String} (hp : p ∉ cs) :
    minimalCandidates (cs ++ [p]) =
      (minimalCandidates cs).filter (fun old => !startsWith old p) ++
        if IsMinimal cs p then [p] else [] := by
  unfold minimalCandidates
  rw [eraseDups_append_singleton, if_neg hp, List.filter_append, List.filter_filter]
  congr 1
  · apply List.filter_congr
    intro c hc
    have hne : p ≠ c := fun h => hp (h ▸ List.mem_eraseDups.mp hc)
    cases hcp : startsWith c p <;> simp [isMinimal_append_singleton, hcp, hne]
  · by_cases hmin : IsMinimal cs p <;> simp [isMinimal_append_singleton, hmin]

/-- The merge step keeps the list of minimal candidates: merging a candidate
into the minimal candidates of `cs` gives those of `cs ++ [p]`. -/
theorem mergeCandidate_minimalCandidates (cs : List String) (p : String) :
    mergeCandidate (minimalCandidates cs) p = minimalCandidates (cs ++ [p]) := by
  by_cases hp : p ∈ cs
  · rw [minimalCandidates_append_of_mem hp]
    by_cases hmin : IsMinimal cs p
    · have hlisted : (minimalCandidates cs).contains p = true := by
        simpa [mem_minimalCandidates] using ⟨hp, hmin⟩
      simp only [mergeCandidate, hlisted, ↓reduceIte]
    · -- nothing listed extends `p`, and a listed candidate lies below it
      have hkept : (minimalCandidates cs).filter (fun old => !startsWith old p) =
          minimalCandidates cs := by
        apply List.filter_eq_self.mpr
        intro old hold
        cases h : startsWith old p with
        | false => rfl
        | true => exact absurd ((mem_minimalCandidates.mp hold).2.of_startsWith h) hmin
      obtain ⟨m, hm, hpm, -⟩ := exists_minimalCandidate_below hmin
      have hany : (minimalCandidates cs).any (fun old => startsWith p old) = true :=
        List.any_eq_true.mpr ⟨m, hm, hpm⟩
      have hunlisted : (minimalCandidates cs).contains p = false := by
        simpa [mem_minimalCandidates] using fun _ => hmin
      simp only [mergeCandidate, hunlisted, Bool.false_eq_true, ↓reduceIte, hkept, hany]
  · have hunlisted : (minimalCandidates cs).contains p = false := by
      simp [mem_minimalCandidates, hp]
    rw [minimalCandidates_append_of_not_mem hp]
    by_cases hmin : IsMinimal cs p
    · -- a listed candidate below `p` would be a smaller candidate
      have hany : ((minimalCandidates cs).filter (fun old => !startsWith old p)).any
          (fun old => startsWith p old) = false := by
        apply List.any_eq_false.mpr
        intro old hold hpo
        have hmem := (mem_minimalCandidates.mp (List.mem_of_mem_filter hold)).1
        exact hp (hmin old hmem (by simpa using hpo) ▸ hmem)
      simp only [mergeCandidate, hunlisted, Bool.false_eq_true, ↓reduceIte, hany, hmin]
    · obtain ⟨m, hm, hpm, hmp⟩ := exists_minimalCandidate_below hmin
      have hany : ((minimalCandidates cs).filter (fun old => !startsWith old p)).any
          (fun old => startsWith p old) = true :=
        List.any_eq_true.mpr ⟨m, List.mem_filter.mpr ⟨hm, by simp [hmp]⟩, hpm⟩
      simp only [mergeCandidate, hunlisted, Bool.false_eq_true, ↓reduceIte, hany, hmin,
        List.append_nil]

/-! ## The merge loop -/

theorem choosePrefixes_append_of_candidate {separators : List Char} {u p : String}
    (h : candidate separators u = some p) (uris : List String) :
    choosePrefixes separators (uris ++ [u]) = mergeCandidate (choosePrefixes separators uris) p := by
  simp [choosePrefixes, List.foldl_append, h]

theorem choosePrefixes_append_of_no_candidate {separators : List Char} {u : String}
    (h : candidate separators u = none) (uris : List String) :
    choosePrefixes separators (uris ++ [u]) = choosePrefixes separators uris := by
  simp [choosePrefixes, List.foldl_append, h]

theorem candidates_append_singleton (separators : List Char) (uris : List String) (u : String) :
    candidates separators (uris ++ [u]) = candidates separators uris ++ (candidate separators u).toList := by
  cases h : candidate separators u <;> simp [candidates, h]

/-- The merge loop keeps exactly the minimal candidates, in the order they
first occur. The induction runs over the IRIs; each one is a merge step. -/
theorem choosePrefixes_eq_minimalCandidates (separators : List Char) (uris : List String) :
    choosePrefixes separators uris = minimalCandidates (candidates separators uris) := by
  induction uris using List.reverseRecOn with
  | nil => rfl
  | append_singleton uris u ih =>
    rw [candidates_append_singleton]
    cases h : candidate separators u with
    | none => simpa [choosePrefixes_append_of_no_candidate h] using ih
    | some p =>
      rw [choosePrefixes_append_of_candidate h, ih, mergeCandidate_minimalCandidates]
      rfl

/-! ## Nesting and coverage -/

theorem nodup_minimalCandidates (cs : List String) : (minimalCandidates cs).Nodup :=
  (nodup_eraseDups cs).filter _

/-- Of two different minimal candidates, neither starts with the other. -/
theorem startsWith_eq_false_of_mem_minimalCandidates {cs : List String} {a b : String}
    (ha : a ∈ minimalCandidates cs) (hb : b ∈ minimalCandidates cs) (hne : a ≠ b) :
    startsWith b a = false := by
  cases h : startsWith b a with
  | false => rfl
  | true => exact absurd ((mem_minimalCandidates.mp hb).2 a (mem_minimalCandidates.mp ha).1 h) hne

theorem minimalCandidates_pairwise (cs : List String) :
    (minimalCandidates cs).Pairwise fun a b => startsWith b a = false ∧ startsWith a b = false :=
  (nodup_minimalCandidates cs).imp_of_mem fun ha hb hne =>
    ⟨startsWith_eq_false_of_mem_minimalCandidates ha hb hne,
      startsWith_eq_false_of_mem_minimalCandidates hb ha (Ne.symm hne)⟩

theorem startsWith_candidate {separators : List Char} {u p : String}
    (h : candidate separators u = some p) : startsWith u p = true := by
  simp only [candidate] at h
  split at h
  · cases h
  · cases h
    apply startsWith_iff.mpr
    rw [String.toList_ofList]
    have hsuffix : (u.toList.reverse.dropWhile fun c => !separators.contains c) <:+
        u.toList.reverse :=
      List.dropWhile_suffix _
    simpa using List.reverse_prefix.mpr hsuffix

/-- An IRI with a separator character has a candidate prefix. -/
theorem candidate_isSome {separators : List Char} {u : String}
    (h : ∃ c ∈ u.toList, c ∈ separators) : ∃ p, candidate separators u = some p := by
  obtain ⟨c, hc, hsep⟩ := h
  simp only [candidate]
  split
  · rename_i hempty
    have hall : ∀ x ∈ u.toList, x ∉ separators := by simpa using hempty
    exact absurd hsep (hall c hc)
  · exact ⟨_, rfl⟩

theorem exists_minimalCandidate_of_mem {cs : List String} {c : String} (hc : c ∈ cs) :
    ∃ m ∈ minimalCandidates cs, startsWith c m = true := by
  obtain ⟨m, hm, hcm, hmin⟩ := exists_minimal_below cs c hc
  exact ⟨m, mem_minimalCandidates.mpr ⟨hm, hmin⟩, hcm⟩

theorem nodup_choosePrefixes (separators : List Char) (uris : List String) :
    (choosePrefixes separators uris).Nodup := by
  rw [choosePrefixes_eq_minimalCandidates]
  exact nodup_minimalCandidates _

end EntityGraph.PrefixMap
