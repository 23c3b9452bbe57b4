import Mathlib
import EntityGraph.Page.Scripts
/-! # Searching a page

The scans the script search is made of. `findSub` finds the first
occurrence of a pattern; `<script` and `</script` begin with a `<` they hold
nowhere else, so they have no proper border and are first found where they
first begin (`findSub_append_eq_some_length`). `tagEnd` finds the `>` that ends a
tag, past quoted parts; on attribute text of the form `AttrText` that is the
`>` right after it (`tagEnd_attrText`). One round of the search either finds
no `<script` and stops, finds one whose tag never ends and stops, or finds a
tag, takes its body and goes on after it (`scriptBodies_of_none`,
`scriptBodies_of_unclosed`, `scriptBodies_of_script`). -/

namespace EntityGraph.Page

/-! ## First occurrences -/

theorem findSub_eq_none_iff (pat l : List Char) : findSub pat l = none ↔ ¬ pat <:+: l := by
  induction l with
  | nil => cases pat <;> simp [findSub]
  | cons c cs ih =>
    rw [findSub, List.infix_cons_iff]
    by_cases hp : pat <+: c :: cs
    · simp [List.isPrefixOf_iff_prefix.mpr hp, hp]
    · have hp' : pat.isPrefixOf (c :: cs) = false :=
        Bool.eq_false_iff.mpr (mt List.isPrefixOf_iff_prefix.mp hp)
      simp [hp', hp, ih]

/-- A pattern none of whose nonempty proper suffixes is a prefix of it. -/
def Unbordered (pat : List Char) : Prop :=
  ∀ s t, pat = s ++ t → s ≠ [] → t ≠ [] → ¬ t <+: pat

/-- A pattern whose first character occurs nowhere else in it has no border. -/
theorem unbordered_cons {c : Char} {rest : List Char} (hc : c ∉ rest) : Unbordered (c :: rest) := by
  intro s t hpat hs ht hpre
  obtain ⟨d, t', rfl⟩ := List.exists_cons_of_ne_nil ht
  obtain ⟨e, s', rfl⟩ := List.exists_cons_of_ne_nil hs
  obtain ⟨-, hrest⟩ := List.cons.inj hpat
  have hd : d = c := (List.cons_prefix_cons.mp hpre).1
  subst hd
  exact hc (hrest ▸ List.mem_append_right s' List.mem_cons_self)

/-- An unbordered pattern that begins `b` and does not occur in `a` is first
found where `b` begins. -/
theorem findSub_append_eq_some_length {pat a b : List Char} (hu : Unbordered pat)
    (ha : ¬ pat <:+: a) (hb : pat <+: b) : findSub pat (a ++ b) = some a.length := by
  induction a with
  | nil =>
    cases b with
    | nil => simp_all [List.prefix_nil]
    | cons c cs => simp [findSub, List.isPrefixOf_iff_prefix.mpr hb]
  | cons c a ih =>
    -- an occurrence starting at `c` lies in `c :: a` or makes a border of `pat`
    have hnot : ¬ pat <+: c :: a ++ b := by
      intro hp
      rcases List.prefix_or_prefix_of_prefix hp (List.prefix_append (c :: a) b) with hpa | hap
      · exact ha hpa.isInfix
      · obtain ⟨t, rfl⟩ := hap
        have htb : t <+: b := (List.prefix_append_right_inj (c :: a)).mp hp
        have ht : t ≠ [] := by
          rintro rfl
          exact ha (by simp)
        have htl : t.length ≤ (c :: a ++ t).length := by simp; omega
        exact hu (c :: a) t rfl (List.cons_ne_nil c a) ht
          (List.prefix_of_prefix_length_le htb hb htl)
    have ha' : ¬ pat <:+: a := fun h => ha (h.trans (List.infix_cons List.infix_rfl))
    have hnot' : pat.isPrefixOf (c :: (a ++ b)) = false :=
      Bool.eq_false_iff.mpr (mt List.isPrefixOf_iff_prefix.mp hnot)
    simp [findSub, hnot', ih ha']

/-! ## The end of a tag -/

/-- Attribute text that the quote-aware scan of a tag reads through without
meeting a `>` outside quotes, ending outside quotes: characters other than
`>` and quotes, and parts quoted with `"` or `'` that do not hold their own
quote (they may hold `>` and the other quote). -/
inductive AttrText : List Char → Prop
  | nil : AttrText []
  | plain {c : Char} {cs : List Char} : c ≠ '>' → c ≠ '"' → c ≠ '\'' → AttrText cs →
      AttrText (c :: cs)
  | quoted {q : Char} {body cs : List Char} : (q = '"' ∨ q = '\'') → q ∉ body → AttrText cs →
      AttrText (q :: (body ++ q :: cs))

/-- Characters that are neither quotes nor `>` may precede attribute text. -/
theorem AttrText.plain_append {x y : List Char}
    (hx : x.all (fun c => c != '>' && c != '"' && c != '\'') = true) (hy : AttrText y) :
    AttrText (x ++ y) := by
  induction x with
  | nil => exact hy
  | cons c x ih =>
    simp only [List.all_cons, Bool.and_eq_true, bne_iff_ne, ne_eq] at hx
    obtain ⟨⟨⟨h₁, h₂⟩, h₃⟩, hx⟩ := hx
    exact .plain h₁ h₂ h₃ (ih hx)

/-- Inside a quoted part the scan runs to the closing quote. -/
theorem tagEnd_quoted {q : Char} {body : List Char} (hq : q ∉ body) (i : Nat) (rest : List Char) :
    tagEnd (some q) i (body ++ q :: rest) = tagEnd none (i + body.length + 1) rest := by
  induction body generalizing i with
  | nil => simp [tagEnd]
  | cons c body ih =>
    have hc : c ≠ q := fun h => hq (h ▸ List.mem_cons_self)
    rw [List.cons_append, tagEnd, if_neg hc, ih (fun h => hq (List.mem_cons_of_mem c h))]
    simp only [List.length_cons]
    congr 1
    omega

/-- The tag ends at the `>` right after attribute text. -/
theorem tagEnd_attrText {a : List Char} (ha : AttrText a) (i : Nat) (rest : List Char) :
    tagEnd none i (a ++ '>' :: rest) = some (i + a.length) := by
  induction ha generalizing i with
  | nil => simp [tagEnd]
  | plain h₁ h₂ h₃ _ ih =>
    rw [List.cons_append, tagEnd]
    simp only [h₁, h₂, h₃, decide_false, Bool.or_false, Bool.false_eq_true, if_false, ih,
      List.length_cons]
    congr 1
    omega
  | @quoted q body cs hq hbody _ ih =>
    have hopen : (decide (q = '"') || decide (q = '\'')) = true := by
      rcases hq with rfl | rfl <;> decide
    rw [List.cons_append, tagEnd, if_pos hopen, List.append_assoc, List.cons_append,
      tagEnd_quoted hbody, ih]
    simp only [List.length_cons, List.length_append]
    congr 1
    omega

/-- A run of characters that are neither quotes nor `>` moves the scan on. -/
theorem tagEnd_append_plain {x : List Char} (hx : ∀ c ∈ x, c ≠ '>' ∧ c ≠ '"' ∧ c ≠ '\'')
    (i : Nat) (rest : List Char) : tagEnd none i (x ++ rest) = tagEnd none (i + x.length) rest := by
  induction x generalizing i with
  | nil => rfl
  | cons c x ih =>
    obtain ⟨h₁, h₂, h₃⟩ := hx c List.mem_cons_self
    rw [List.cons_append, tagEnd]
    simp only [h₁, h₂, h₃, decide_false, Bool.or_false, Bool.false_eq_true, if_false,
      ih (fun d hd => hx d (List.mem_cons_of_mem c hd)), List.length_cons]
    congr 1
    omega

/-- The scan stops only at a `>`, at or after where it started counting. -/
theorem tagEnd_eq_some {q : Option Char} {i j : Nat} {cs : List Char} (h : tagEnd q i cs = some j) :
    i ≤ j ∧ ∃ rest, cs.drop (j - i) = '>' :: rest := by
  induction cs generalizing q i with
  | nil => simp [tagEnd] at h
  | cons c cs ih =>
    -- a step past `c` counts one more, so the `>` lies one further into `c :: cs`
    have step : ∀ {q'}, tagEnd q' (i + 1) cs = some j →
        i ≤ j ∧ ∃ rest, (c :: cs).drop (j - i) = '>' :: rest := by
      intro q' h'
      obtain ⟨hij, rest, hrest⟩ := ih h'
      refine ⟨by omega, rest, ?_⟩
      rw [show j - i = (j - (i + 1)) + 1 by omega, List.drop_succ_cons, hrest]
    cases q with
    | none =>
      rw [tagEnd] at h
      split at h
      · exact step h
      · split at h
        · rename_i hc
          cases h
          simp [hc]
        · exact step h
    | some q =>
      rw [tagEnd] at h
      split at h <;> exact step h

/-! ## One round of the search -/

/-- Without a `<script` the search stops. -/
theorem scriptBodies_of_none {page lower : List Char}
    (h : findSub "<script".toList lower = none) : scriptBodies page lower = [] := by
  cases lower with
  | nil => rw [scriptBodies]
  | cons c cs => rw [scriptBodies]; simp only [h]

/-- A `<script` whose tag never ends stops the search. -/
theorem scriptBodies_of_unclosed {page lower : List Char} {start : Nat}
    (hstart : findSub "<script".toList lower = some start)
    (hlen : tagEnd none 0 (lower.drop start) = none) : scriptBodies page lower = [] := by
  cases lower with
  | nil => simp [findSub] at hstart
  | cons c cs =>
    rw [scriptBodies]
    simp only [hstart, hlen]

/-- A `<script` whose tag ends: the body runs to the next `</script` (or the
end of the page), is kept when the tag marks it, and the search goes on from
the end of the body. -/
theorem scriptBodies_of_script {page lower : List Char} {start len bodyLen : Nat}
    (hstart : findSub "<script".toList lower = some start)
    (hlen : tagEnd none 0 (lower.drop start) = some len)
    (hbody : (findSub "</script".toList (lower.drop (start + len + 1))).getD
      (lower.drop (start + len + 1)).length = bodyLen) :
    scriptBodies page lower =
      (if isGraphTag ((lower.drop start).take len) then
        [String.ofList ((page.drop (start + len + 1)).take bodyLen)] else []) ++
      scriptBodies (page.drop (start + len + 1 + bodyLen)) (lower.drop (start + len + 1 + bodyLen)) := by
  cases lower with
  | nil => simp [findSub] at hstart
  | cons c cs =>
    rw [scriptBodies]
    simp only [hstart, hlen, hbody]

end EntityGraph.Page
