import Mathlib
import EntityGraph.Json.Read
import EntityGraph.Json.Text

/-! # Reading back the tokens of written JSON

The JSON writer's names, strings and integers read back as what was written,
and the reader stops right after them. A reader returns the text it left as a
`Rest`, a subtype; `Step.out` forgets the proof that the rest is no longer,
so that what a reader gives can be stated as an equation. -/

namespace EntityGraph.Json

/-! ## What a reader gives -/

/-- What a step read, with the text it left. -/
def Step.out {s : List Char} (x : Step α s) : Except Fault (α × List Char) :=
  x.map fun p => (p.1, p.2.1)

theorem Step.out_eq_ok_iff {s : List Char} {x : Step α s} {a : α} {r : List Char} :
    Step.out x = .ok (a, r) ↔ ∃ h, x = .ok (a, ⟨r, h⟩) := by
  cases x with
  | error e => simp [Step.out, Except.map]
  | ok p =>
    obtain ⟨b, q, hq⟩ := p
    simp only [Step.out, Except.map, Except.ok.injEq, Prod.mk.injEq]
    constructor
    · rintro ⟨rfl, rfl⟩
      exact ⟨hq, rfl, rfl⟩
    · rintro ⟨_, rfl, h⟩
      exact ⟨rfl, congrArg Subtype.val h⟩

@[simp] theorem Rest.val_refl (s : List Char) : (Rest.refl s).1 = s := rfl

@[simp] theorem Rest.val_tail (c : Char) (s : List Char) : (Rest.tail c s).1 = s := rfl

@[simp] theorem Rest.val_cons (c : Char) {s : List Char} (r : Rest s) : (Rest.cons c r).1 = r.1 :=
  rfl

@[simp] theorem Rest.val_lift {s t : List Char} (h : t.length ≤ s.length) (q : Rest t) :
    (Rest.lift h q).1 = q.1 := rfl

@[simp] theorem Rest.val_trans {s : List Char} (r : Rest s) (q : Rest r.1) : (r.trans q).1 = q.1 :=
  rfl

@[simp] theorem Step.out_ok {s : List Char} (p : α × Rest s) :
    Step.out (.ok p : Step α s) = .ok (p.1, p.2.1) := rfl

@[simp] theorem Step.out_error {s : List Char} (f : Fault) :
    Step.out (.error f : Step α s) = .error f := rfl

/-- Mapping a step by a function of the value that keeps the text left. -/
theorem Step.out_map_value {s t : List Char} (x : Step α s) (f : α → β)
    (g : α × Rest s → β × Rest t) (hg : ∀ a r, (g (a, r)).1 = f a ∧ (g (a, r)).2.1 = r.1) :
    Step.out (x.map g) = (Step.out x).map fun p => (f p.1, p.2) := by
  cases x with
  | error e => rfl
  | ok p => simp only [Step.out, Except.map, (hg p.1 p.2).1, (hg p.1 p.2).2]

/-- Mapping a step by a function that keeps the value and the text left
changes nothing that `Step.out` sees. -/
@[simp] theorem Step.out_map {s t : List Char} (x : Step α s) (g : α × Rest s → α × Rest t)
    (hg : ∀ a r, (g (a, r)).1 = a ∧ (g (a, r)).2.1 = r.1) : Step.out (x.map g) = Step.out x := by
  rw [Step.out_map_value x id g hg]
  cases Step.out x <;> rfl

/-- Reading on from a rest that holds the same text changes nothing that
`Step.out` sees. -/
theorem Step.out_map_trans {s : List Char} (q : Rest s) (x : Step α q.1) :
    Step.out (x.map fun p => (p.1, q.trans p.2)) = Step.out x := by
  cases x <;> rfl

/-! ## Blank space -/

theorem skipBlank_cons {c : Char} (h : isBlank c = false) (t : List Char) :
    skipBlank (c :: t) = c :: t := by
  simp [skipBlank, h]

theorem blank_cons {c : Char} (h : isBlank c = false) (t : List Char) :
    blank (c :: t) = Rest.refl (c :: t) := by
  simp [blank, Rest.refl, skipBlank_cons h]

/-! ## Names -/

/-- The rest of a name reads as itself. -/
theorem ident_append (w rest : List Char) : ∃ h, ident w (w ++ rest) = .ok ⟨rest, h⟩ := by
  induction w with
  | nil => exact ⟨Nat.le_refl _, rfl⟩
  | cons c ws ih =>
    obtain ⟨h, e⟩ := ih
    refine ⟨Nat.le_succ_of_le h, ?_⟩
    simp only [List.cons_append, ident, if_true, e]
    rfl

/-! ## Strings -/

theorem hexValue_hexDigitLower : ∀ d < 16, hexValue (hexDigitLower d) = some d := by
  decide

/-- A backslash in a string starts an escape; the string goes on after it. -/
theorem stringBody_backslash (acc t : List Char) :
    Step.out (stringBody acc ('\\' :: t)) =
      (Step.out (escape t)).bind fun p => Step.out (stringBody (p.1 :: acc) p.2) := by
  rw [stringBody]
  simp only [show ('\\' : Char) ≠ '"' by decide, if_false, if_true]
  cases escape t with
  | error f => rfl
  | ok p => simp [Except.bind]

/-- A character that needs no escape is taken as it is. -/
theorem stringBody_plain (acc : List Char) {c : Char} (h1 : c ≠ '"') (h2 : c ≠ '\\')
    (h3 : ¬c.toNat < 0x20) (more : List Char) :
    Step.out (stringBody acc (c :: more)) = Step.out (stringBody (c :: acc) more) := by
  rw [stringBody]
  simp [h1, h2, h3]

/-- The escapes of one letter after a backslash, with the characters they
stand for. -/
def shortEscapes : List (Char × Char) :=
  [('"', '"'), ('\\', '\\'), ('b', Char.ofNat 8), ('f', Char.ofNat 12), ('n', '\n'), ('r', '\r'),
    ('t', '\t')]

/-- A short escape stands for its character. -/
theorem escape_short {e x : Char} (h : (e, x) ∈ shortEscapes) (more : List Char) :
    Step.out (escape (e :: more)) = .ok (x, more) := by
  simp only [shortEscapes, List.mem_cons, Prod.mk.injEq, List.not_mem_nil, or_false] at h
  rcases h with ⟨rfl, rfl⟩ | ⟨rfl, rfl⟩ | ⟨rfl, rfl⟩ | ⟨rfl, rfl⟩ | ⟨rfl, rfl⟩ | ⟨rfl, rfl⟩ |
    ⟨rfl, rfl⟩ <;> rfl

/-- A `\u` escape of a character below U+0020 stands for it. -/
theorem escape_control {c : Char} (h : c.toNat < 0x20) (more : List Char) :
    Step.out (escape ('u' :: '0' :: '0' :: hexDigitLower (c.toNat / 16) ::
      hexDigitLower (c.toNat % 16) :: more)) = .ok (c, more) := by
  have h1 := hexValue_hexDigitLower (c.toNat / 16) (by omega)
  have h2 := hexValue_hexDigitLower (c.toNat % 16) (by omega)
  have hn : c.toNat / 16 * 16 + c.toNat % 16 = c.toNat := by omega
  have hsur : isTrailingSurrogate c.toNat = false ∧ isLeadingSurrogate c.toNat = false := by
    simp only [isTrailingSurrogate, isLeadingSurrogate]
    constructor <;> simp <;> omega
  have h0 : hexValue '0' = some 0 := by decide
  simp [escape, unicodeEscape, hex4, h0, h1, h2, hn, hsur, Step.out, Except.map]

/-- The writer escapes a character by a short escape, by `\u00xx` when it is
another control character, or not at all. -/
theorem jsonEscapeChar_cases (c : Char) :
    (∃ e, (e, c) ∈ shortEscapes ∧ jsonEscapeChar c = ['\\', e]) ∨
    (c.toNat < 0x20 ∧ jsonEscapeChar c =
      ['\\', 'u', '0', '0', hexDigitLower (c.toNat / 16), hexDigitLower (c.toNat % 16)]) ∨
    (c ≠ '"' ∧ c ≠ '\\' ∧ ¬c.toNat < 0x20 ∧ jsonEscapeChar c = [c]) := by
  unfold jsonEscapeChar
  split_ifs with h1 h2 h3 h4 h5 h6 h7 h8
  · exact .inl ⟨'"', by simp [shortEscapes, h1], rfl⟩
  · exact .inl ⟨'\\', by simp [shortEscapes, h2], rfl⟩
  · refine .inl ⟨'b', ?_, rfl⟩
    rw [← Char.ofNat_toNat c, h3]
    simp [shortEscapes]
  · exact .inl ⟨'t', by simp [shortEscapes, h4], rfl⟩
  · exact .inl ⟨'n', by simp [shortEscapes, h5], rfl⟩
  · refine .inl ⟨'f', ?_, rfl⟩
    rw [← Char.ofNat_toNat c, h6]
    simp [shortEscapes]
  · exact .inl ⟨'r', by simp [shortEscapes, h7], rfl⟩
  · exact .inr (.inl ⟨h8, rfl⟩)
  · exact .inr (.inr ⟨h1, h2, h8, rfl⟩)

/-- Reading the escape the writer gives a character yields that character. -/
theorem stringBody_jsonEscapeChar (acc : List Char) (c : Char) (more : List Char) :
    Step.out (stringBody acc (jsonEscapeChar c ++ more)) =
      Step.out (stringBody (c :: acc) more) := by
  rcases jsonEscapeChar_cases c with ⟨e, he, hc⟩ | ⟨h, hc⟩ | ⟨h1, h2, h3, hc⟩
  · rw [hc, List.cons_append, stringBody_backslash, List.cons_append, escape_short he]
    rfl
  · rw [hc, List.cons_append, stringBody_backslash]
    simp only [List.cons_append]
    rw [escape_control h]
    rfl
  · rw [hc, List.cons_append, List.nil_append]
    exact stringBody_plain acc h1 h2 h3 more

/-- The escaped characters of a string, then the closing quote, read back
as the string. -/
theorem stringBody_escaped (cs acc rest : List Char) :
    Step.out (stringBody acc (cs.flatMap jsonEscapeChar ++ '"' :: rest)) =
      .ok (String.ofList (acc.reverse ++ cs), rest) := by
  induction cs generalizing acc with
  | nil =>
    rw [List.flatMap_nil, List.nil_append, stringBody]
    simp [Step.out, Except.map, Rest.tail, Rest.cons, Rest.refl]
  | cons c cs ih =>
    rw [List.flatMap_cons, List.append_assoc, stringBody_jsonEscapeChar, ih]
    simp

theorem toList_jsonQuote (s : String) :
    (jsonQuote s).toList = '"' :: (s.toList.flatMap jsonEscapeChar ++ ['"']) := by
  simp [jsonQuote]

/-- A written string reads back, from after its opening quote. -/
theorem string_jsonQuote (s : String) (rest : List Char) :
    Step.out (string (s.toList.flatMap jsonEscapeChar ++ '"' :: rest)) = .ok (s, rest) := by
  simp [string, stringBody_escaped]

/-! ## Integers -/

/-- Text that does not go on with a number: its end, or a character that is
no digit, point or exponent mark. -/
def NumberEnd (rest : List Char) : Prop :=
  ∀ c ∈ rest.head?, isDigit c = false ∧ c ≠ '.' ∧ c ≠ 'e' ∧ c ≠ 'E'

theorem afterInteger_end (positive : Bool) (n : Nat) {rest : List Char} (hr : NumberEnd rest) :
    Step.out (afterInteger positive n rest) = .ok (integerValue positive n, rest) := by
  cases rest with
  | nil => rfl
  | cons c t =>
    obtain ⟨-, h1, h2, h3⟩ := hr c (by simp)
    simp [afterInteger, h1, h2, h3, Step.out, Except.map, Rest.refl]

theorem integerDigits_end (positive : Bool) (n : Nat) {rest : List Char} (hr : NumberEnd rest) :
    Step.out (integerDigits positive n rest) = .ok (integerValue positive n, rest) := by
  cases rest with
  | nil => exact afterInteger_end positive n hr
  | cons c t =>
    have hc := (hr c (by simp)).1
    rw [integerDigits, if_neg (by simp [hc])]
    exact afterInteger_end positive n hr

theorem le_ofDigitChars (ds : List Char) (acc : Nat) : acc ≤ Nat.ofDigitChars 10 ds acc := by
  rw [Nat.ofDigitChars_eq_ofDigitChars_zero]
  have : 1 ≤ 10 ^ ds.length := Nat.one_le_pow _ _ (by decide)
  nlinarith

/-- Digits whose value fits in 64 bits are read as one integer. -/
theorem integerDigits_append (positive : Bool) (ds : List Char) (acc : Nat)
    (hds : ∀ c ∈ ds, isDigit c = true) (hlt : Nat.ofDigitChars 10 ds acc < 2 ^ 64)
    {rest : List Char} (hr : NumberEnd rest) :
    Step.out (integerDigits positive acc (ds ++ rest)) =
      .ok (integerValue positive (Nat.ofDigitChars 10 ds acc), rest) := by
  induction ds generalizing acc with
  | nil => exact integerDigits_end positive acc hr
  | cons d ds ih =>
    have hd := hds d (by simp)
    -- the reader's step is the digit fold's step
    have hnext : Nat.ofDigitChars 10 (d :: ds) acc =
        Nat.ofDigitChars 10 ds (acc * 10 + digitValue d) := by
      rw [Nat.ofDigitChars_cons, Nat.mul_comm]
      rfl
    rw [hnext] at hlt ⊢
    have hfit : ¬acc * 10 + digitValue d ≥ Nat.pow 2 64 := by
      have := le_ofDigitChars ds (acc * 10 + digitValue d)
      simp only [Nat.pow_eq] at *
      omega
    rw [List.cons_append, integerDigits, if_pos hd, if_neg hfit]
    simpa using ih _ (fun c hc => hds c (by simp [hc])) hlt

theorem isDigit_eq (c : Char) : isDigit c = c.isDigit := by
  simp [isDigit, Char.isDigit, Char.le_def, UInt32.le_iff_toNat_le]

theorem isDigit_of_mem_toDigits {c : Char} {n : Nat} (h : c ∈ Nat.toDigits 10 n) :
    isDigit c = true := by
  rw [isDigit_eq]
  exact Nat.isDigit_of_mem_toDigits (by decide) (by decide) h

/-- A positive number is written without a leading zero. -/
theorem toDigits_head_ne_zero {n : Nat} (h : 0 < n) :
    ∃ c cs, Nat.toDigits 10 n = c :: cs ∧ c ≠ '0' := by
  induction n using Nat.strong_induction_on with
  | _ n ih =>
    rw [Nat.toDigits_eq_if (by decide)]
    split
    · rename_i hlt
      have hne : ∀ m < 10, 0 < m → m.digitChar ≠ '0' := by decide
      exact ⟨_, [], rfl, hne n hlt h⟩
    · obtain ⟨c, cs, hc, hc0⟩ := ih (n / 10) (by omega) (by omega)
      exact ⟨c, cs ++ [(n % 10).digitChar], by rw [hc, List.cons_append], hc0⟩

/-- The decimal digits of a number that fits in 64 bits read back as it. -/
theorem unsignedNumber_toDigits (positive : Bool) {n : Nat} (hn : n < 2 ^ 64) {rest : List Char}
    (hr : NumberEnd rest) :
    Step.out (unsignedNumber positive (Nat.toDigits 10 n ++ rest)) =
      .ok (integerValue positive n, rest) := by
  rcases Nat.eq_zero_or_pos n with rfl | hpos
  · -- a zero stands alone: what follows is no digit
    rw [Nat.toDigits_zero, List.singleton_append]
    simp only [unsignedNumber, if_pos]
    cases rest with
    | nil => rfl
    | cons d t =>
      have hd := (hr d (by simp)).1
      simp only [hd, Bool.false_eq_true, if_false]
      simpa using afterInteger_end positive 0 hr
  · obtain ⟨c, cs, hc, hc0⟩ := toDigits_head_ne_zero hpos
    have hdig : ∀ d ∈ c :: cs, isDigit d = true := fun d hd =>
      isDigit_of_mem_toDigits (hc ▸ hd)
    have hval : Nat.ofDigitChars 10 cs (digitValue c) = n := by
      have := Nat.ofDigitChars_ten_toDigits (n := n)
      rw [hc, Nat.ofDigitChars_cons] at this
      simpa [digitValue] using this
    rw [hc, List.cons_append]
    simp only [unsignedNumber, if_neg hc0, if_pos (hdig c (by simp))]
    have := integerDigits_append positive cs (digitValue c) (fun d hd => hdig d (by simp [hd]))
      (hval ▸ hn) hr
    rw [hval] at this
    simpa using this

theorem toList_render_nat (n : UInt64) : (Number.nat n).render.toList = Nat.toDigits 10 n.toNat := by
  simp [Number.render]

/-- An unsigned integer's text reads back as it. -/
theorem unsignedNumber_render_nat (n : UInt64) {rest : List Char} (hr : NumberEnd rest) :
    Step.out (unsignedNumber true ((Number.nat n).render.toList ++ rest)) = .ok (.nat n, rest) := by
  rw [toList_render_nat]
  simpa [integerValue, UInt64.ofNat_toNat] using unsignedNumber_toDigits true (UInt64.toNat_lt n) hr

theorem toList_render_neg {n : Int64} (h : n.toInt < 0) :
    (Number.neg n).render.toList = '-' :: Nat.toDigits 10 n.toInt.natAbs := by
  cases hn : n.toInt with
  | ofNat m =>
    simp only [hn, Int.ofNat_eq_natCast] at h
    omega
  | negSucc m =>
    simp [Number.render, hn, Int.repr]

/-- A negative integer's digits, after its minus sign, read back as it. -/
theorem unsignedNumber_render_neg {n : Int64} (h : n.toInt < 0) {rest : List Char}
    (hr : NumberEnd rest) :
    Step.out (unsignedNumber false (Nat.toDigits 10 n.toInt.natAbs ++ rest)) =
      .ok (.neg n, rest) := by
  have hlow := Int64.le_toInt n
  have hfit : n.toInt.natAbs < 2 ^ 64 := by omega
  rw [unsignedNumber_toDigits false hfit hr]
  have hk : ¬(n.toInt.natAbs == 0) = true := by simp; omega
  have hle : n.toInt.natAbs ≤ Nat.pow 2 63 := by simp only [Nat.pow_eq]; omega
  have hint : -(n.toInt.natAbs : Int) = n.toInt := by omega
  simp only [integerValue, Bool.false_eq_true, if_false, hk, hle, if_true, hint, Int64.ofInt_toInt]

end EntityGraph.Json
