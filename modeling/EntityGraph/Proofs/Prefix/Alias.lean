import Mathlib
import EntityGraph.Proofs.Prefix.Choose

/-! # Aliases of generated prefixes

A suggested alias is a word of ASCII letters and digits, cut to the maximal
length and lower-cased, so it holds only lower-case letters and digits, and
never an underscore or a colon. Numbering appends `_k` to the `k`-th repeat
of a name (`numberAliases_append_singleton`), with the counters of the fold
read as `seenCounts`. Since a name has no underscore, the numbered alias
gives back its name and number (`numberedAlias_inj`), so the numbered
aliases are pairwise distinct (`nodup_numberAliases`).
-/

namespace EntityGraph.PrefixMap

/-! ## Suggested aliases -/

/-- No piece of a split holds a separator. -/
theorem forall_mem_splitOnP {α : Type} (p : α → Bool) (xs : List α) :
    ∀ w ∈ xs.splitOnP p, ∀ x ∈ w, p x = false := by
  induction xs with
  | nil => simp [List.splitOnP_nil]
  | cons y ys ih =>
    rw [List.splitOnP_cons_eq_if_modifyHead]
    split
    · simpa using ih
    · rename_i hy
      obtain ⟨w0, ws, hsplit⟩ := List.exists_cons_of_ne_nil (List.splitOnP_ne_nil p ys)
      rw [hsplit] at ih ⊢
      intro w hw x hx
      simp only [List.modifyHead_cons, List.mem_cons] at hw
      rcases hw with rfl | hw
      · rcases List.mem_cons.mp hx with rfl | hx
        · simpa using hy
        · exact ih w0 (by simp) x hx
      · exact ih w (by simp [hw]) x hx

/-- A word is a nonempty run of ASCII letters and digits. -/
theorem isAlphanum_of_mem_words {cs w : List Char} (hw : w ∈ words cs) :
    w ≠ [] ∧ ∀ c ∈ w, c.isAlphanum = true := by
  simp only [words, List.mem_filter, Bool.not_eq_true', List.isEmpty_eq_false_iff] at hw
  refine ⟨hw.2, fun c hc => ?_⟩
  simpa using forall_mem_splitOnP _ cs w hw.1 c hc

theorem toLower_isLower_or_isDigit {c : Char} (h : c.isAlphanum = true) :
    c.toLower.isLower = true ∨ c.toLower.isDigit = true := by
  unfold Char.toLower
  split
  · -- an upper-case letter moves up by 32, into `a`..`z`
    rename_i hup
    left
    simp only [Char.isLower, ge_iff_le, UInt32.le_iff_toNat_le, UInt32.toNat_add] at hup ⊢
    simp at hup ⊢
    omega
  · simp only [Char.isAlphanum, Char.isAlpha, Char.isUpper, Bool.or_eq_true,
      decide_eq_true_eq] at h
    tauto

/-- The word an alias is cut from: nonempty, of ASCII letters and digits. -/
theorem aliasWord_spec (name : List Char) {word : List Char}
    (h : word = ((words name).find? fun w => w != "www".toList).getD "prefix".toList) :
    word ≠ [] ∧ ∀ c ∈ word, c.isAlphanum = true := by
  subst h
  cases hfind : (words name).find? fun w => w != "www".toList with
  | none => simp
  | some w => simpa using isAlphanum_of_mem_words (List.mem_of_find?_eq_some hfind)

/-- A suggested alias holds only lower-case ASCII letters and digits. -/
theorem aliasBase_chars (maxLen : Nat) (long : String) :
    ∀ c ∈ (aliasBase maxLen long).toList, c.isLower = true ∨ c.isDigit = true := by
  obtain ⟨-, hword⟩ := aliasWord_spec _ rfl
  intro c hc
  simp only [aliasBase, String.toList_ofList, List.mem_map] at hc
  obtain ⟨d, hd, rfl⟩ := hc
  exact toLower_isLower_or_isDigit (hword d (List.mem_of_mem_take hd))

theorem aliasBase_length_le (maxLen : Nat) (long : String) :
    (aliasBase maxLen long).length ≤ maxLen := by
  simp only [aliasBase, String.length_ofList, List.length_map, List.length_take]
  omega

theorem aliasBase_ne_empty {maxLen : Nat} (h : 0 < maxLen) (long : String) :
    aliasBase maxLen long ≠ "" := by
  obtain ⟨hne, -⟩ := aliasWord_spec ((afterScheme? long.toList).getD long.toList) rfl
  have hpos := List.length_pos_of_ne_nil hne
  intro he
  have hl := congrArg String.length he
  simp only [aliasBase, String.length_ofList, List.length_map, List.length_take,
    String.length_empty] at hl
  omega

/-! ## Numbering -/

/-- The alias a name gets when it was suggested `k` times before: the name
itself the first time, then the name with `_k` appended. -/
def numberedAlias (base : String) (k : Nat) : String :=
  if k = 0 then base else base ++ "_" ++ toString k

/-- The counters of the numbering after some names: each name once, where
it first came, with the number of times it came. -/
def seenCounts (bs : List String) : List (String × Nat) :=
  bs.eraseDups.map fun b => (b, bs.count b)

theorem lookup_map_pair (l : List String) (f : String → Nat) (b : String) :
    (l.map fun x => (x, f x)).lookup b = if b ∈ l then some (f b) else none := by
  induction l with
  | nil => simp
  | cons x xs ih =>
    by_cases hbx : b = x
    · subst hbx
      simp
    · have : (b == x) = false := by simpa using hbx
      simp [List.lookup_cons, this, ih, hbx]

theorem lookup_seenCounts (bs : List String) (b : String) :
    (seenCounts bs).lookup b = if b ∈ bs then some (bs.count b) else none := by
  simp [seenCounts, lookup_map_pair, List.mem_eraseDups]

/-- One numbering step, read through the counters: the next name gets its
count so far as its number, and its counter goes up by one. -/
theorem numberStep_seenCounts (out bs : List String) (b : String) :
    numberStep (out, seenCounts bs) b =
      (out ++ [numberedAlias b (bs.count b)], seenCounts (bs ++ [b])) := by
  by_cases hb : b ∈ bs
  · have hpos : bs.count b ≠ 0 := Nat.pos_iff_ne_zero.mp (List.count_pos_iff.mpr hb)
    simp only [numberStep, lookup_seenCounts, if_pos hb]
    refine Prod.ext (by simp [numberedAlias, hpos]) ?_
    simp only [seenCounts, eraseDups_append_singleton, if_pos hb, List.append_nil, List.map_map]
    apply List.map_congr_left
    intro x _
    by_cases hxb : x = b
    · simp [hxb]
    · simp [hxb, Ne.symm hxb]
  · have hzero : bs.count b = 0 := List.count_eq_zero.mpr hb
    simp only [numberStep, lookup_seenCounts, if_neg hb]
    refine Prod.ext (by simp [numberedAlias, hzero]) ?_
    simp only [seenCounts, eraseDups_append_singleton, if_neg hb, List.map_append,
      List.map_singleton, List.count_append, List.count_singleton_self, hzero]
    congr 1
    apply List.map_congr_left
    intro x hx
    have hxb : x ≠ b := fun h => hb (h ▸ List.mem_eraseDups.mp hx)
    simp [Ne.symm hxb]

/-- The numbering fold keeps its counters equal to `seenCounts`. -/
theorem foldl_numberStep (bs : List String) :
    bs.foldl numberStep ([], []) = (numberAliases bs, seenCounts bs) := by
  induction bs using List.reverseRecOn with
  | nil => rfl
  | append_singleton bs b ih =>
    refine Prod.ext rfl ?_
    rw [List.foldl_append, ih, List.foldl_cons, List.foldl_nil, numberStep_seenCounts]

/-- A name suggested after `bs` is numbered by how often it came in `bs`. -/
theorem numberAliases_append_singleton (bs : List String) (b : String) :
    numberAliases (bs ++ [b]) = numberAliases bs ++ [numberedAlias b (bs.count b)] := by
  show ((bs ++ [b]).foldl numberStep ([], [])).1 = _
  rw [List.foldl_append, foldl_numberStep, List.foldl_cons, List.foldl_nil, numberStep_seenCounts]

@[simp] theorem length_numberAliases (bs : List String) : (numberAliases bs).length = bs.length := by
  induction bs using List.reverseRecOn with
  | nil => rfl
  | append_singleton bs b ih => simp [numberAliases_append_singleton, ih]

/-- The alias at position `j` is numbered by the earlier suggestions of the
same name. -/
theorem getElem?_numberAliases (bs : List String) (j : Nat) (hj : j < bs.length) :
    (numberAliases bs)[j]? = some (numberedAlias bs[j] ((bs.take j).count bs[j])) := by
  induction bs using List.reverseRecOn generalizing j with
  | nil => simp at hj
  | append_singleton bs b ih =>
    rw [numberAliases_append_singleton, List.getElem?_append]
    by_cases hjb : j < bs.length
    · simpa [hjb, List.getElem_append_left hjb,
        List.take_append_of_le_length (Nat.le_of_lt hjb)] using ih j hjb
    · have hj' : j = bs.length := by simp at hj; omega
      subst hj'
      simp

/-- Every alias given is some name numbered below that name's count. -/
theorem exists_of_mem_numberAliases {bs : List String} {a : String} (h : a ∈ numberAliases bs) :
    ∃ b ∈ bs, ∃ k < bs.count b, a = numberedAlias b k := by
  induction bs using List.reverseRecOn with
  | nil => simp [numberAliases] at h
  | append_singleton bs b ih =>
    rw [numberAliases_append_singleton, List.mem_append, List.mem_singleton] at h
    rcases h with h | rfl
    · obtain ⟨b', hb', k, hk, rfl⟩ := ih h
      exact ⟨b', by simp [hb'], k, by simp [List.count_append]; omega, rfl⟩
    · exact ⟨b, by simp, bs.count b, by simp [List.count_append], rfl⟩

theorem toList_numberedAlias (base : String) (k : Nat) :
    (numberedAlias base k).toList =
      base.toList ++ if k = 0 then [] else '_' :: Nat.toDigits 10 k := by
  by_cases hk : k = 0 <;> simp [numberedAlias, hk]

theorem forall_bne_of_not_mem {c : Char} {l : List Char} (h : c ∉ l) :
    ∀ x ∈ l, (x != c) = true :=
  fun x hx => by simpa using fun he : x = c => h (he ▸ hx)

/-- A name without underscores and its number can be read back from the
numbered alias: the name is what comes before the first underscore. -/
theorem numberedAlias_inj {b b' : String} {k k' : Nat} (hb : '_' ∉ b.toList)
    (hb' : '_' ∉ b'.toList) (h : numberedAlias b k = numberedAlias b' k') : b = b' ∧ k = k' := by
  have hl := congrArg String.toList h
  rw [toList_numberedAlias, toList_numberedAlias] at hl
  have hsuffix : ∀ n : Nat,
      (if n = 0 then [] else '_' :: Nat.toDigits 10 n).takeWhile (· != '_') = [] ∧
      (if n = 0 then [] else '_' :: Nat.toDigits 10 n).dropWhile (· != '_') =
        if n = 0 then [] else '_' :: Nat.toDigits 10 n := by
    intro n
    by_cases hn : n = 0 <;> simp [hn]
  have htake := congrArg (List.takeWhile (· != '_')) hl
  have hdrop := congrArg (List.dropWhile (· != '_')) hl
  rw [List.takeWhile_append_of_pos (forall_bne_of_not_mem hb),
    List.takeWhile_append_of_pos (forall_bne_of_not_mem hb'), (hsuffix k).1,
    (hsuffix k').1, List.append_nil, List.append_nil] at htake
  rw [List.dropWhile_append_of_pos (forall_bne_of_not_mem hb),
    List.dropWhile_append_of_pos (forall_bne_of_not_mem hb'), (hsuffix k).2, (hsuffix k').2] at hdrop
  refine ⟨String.toList_injective htake, ?_⟩
  -- the numbers: both absent, or the same digits
  by_cases hk : k = 0 <;> by_cases hk' : k' = 0 <;> simp [hk, hk'] at hdrop
  · omega
  · have hnum := congrArg (fun ds => Nat.ofDigitChars 10 ds 0) hdrop
    simpa using hnum

/-- Numbering makes names without underscores distinct: a repeat gets a
number its name never had before. -/
theorem nodup_numberAliases {bs : List String} (h : ∀ b ∈ bs, '_' ∉ b.toList) :
    (numberAliases bs).Nodup := by
  induction bs using List.reverseRecOn with
  | nil => simp [numberAliases]
  | append_singleton bs b ih =>
    rw [numberAliases_append_singleton, List.nodup_append]
    refine ⟨ih fun b' hb' => h b' (by simp [hb']), List.nodup_singleton _, ?_⟩
    intro a ha a' ha' heq
    obtain ⟨b', hb', k, hk, rfl⟩ := exists_of_mem_numberAliases ha
    rw [List.mem_singleton] at ha'
    subst ha'
    obtain ⟨rfl, rfl⟩ := numberedAlias_inj (h b' (by simp [hb'])) (h b (by simp)) heq
    omega

/-- A numbered alias has a colon only where its name has one. -/
theorem colon_not_mem_numberedAlias {b : String} (hb : ':' ∉ b.toList) (k : Nat) :
    ':' ∉ (numberedAlias b k).toList := by
  rw [toList_numberedAlias]
  intro hc
  rcases List.mem_append.mp hc with hc | hc
  · exact hb hc
  · split at hc
    · simp at hc
    · rcases List.mem_cons.mp hc with hc | hc
      · cases hc
      · have := Nat.isDigit_of_mem_toDigits (by decide) (by decide) hc
        simp at this

/-- With every suggested alias empty, the aliases are the empty one and then
`_1`, `_2`, …. -/
theorem numberAliases_replicate_empty (n : Nat) :
    numberAliases (List.replicate n "") = (List.range n).map (numberedAlias "") := by
  induction n with
  | zero => rfl
  | succ n ih =>
    rw [List.replicate_succ', numberAliases_append_singleton, ih, List.range_succ,
      List.map_append, List.count_replicate_self]
    rfl

theorem numberedAlias_ne_empty {b : String} {k : Nat} (h : b ≠ "" ∨ k ≠ 0) :
    numberedAlias b k ≠ "" := by
  intro he
  have hl := congrArg String.toList he
  by_cases hk : k = 0
  · simp only [hk, ne_eq, not_true_eq_false, or_false] at h
    exact h (by simpa [numberedAlias, hk] using he)
  · simp [toList_numberedAlias, hk] at hl

/-- Neither `_` nor `:` is in a suggested alias: no character that is neither a
lower-case letter nor a digit is. -/
theorem not_mem_aliasBase {c : Char} (hl : c.isLower = false) (hd : c.isDigit = false)
    (maxLen : Nat) (long : String) : c ∉ (aliasBase maxLen long).toList := fun h => by
  rcases aliasBase_chars maxLen long c h with h | h
  · rw [hl] at h
    cases h
  · rw [hd] at h
    cases h

theorem aliasBase_zero (long : String) : aliasBase 0 long = "" := by
  have h := aliasBase_length_le 0 long
  simpa using h

end EntityGraph.PrefixMap
