import Mathlib
import EntityGraph.Proofs.Json.Tokens

/-! # Where a number ends

The number reader decides at each character whether the number goes on;
once it stops, the text after that point plays no part in what it read.
`StopsAfter read n u` says that `read` takes exactly `u` and gives `n`
whatever follows that does not go on with a number. Every number the reader
reads is read that way (`unsignedNumber_stops`), so a number whose text reads
back on its own also reads back inside an array or an object. -/

namespace EntityGraph.Json

/-- `read` takes exactly `u` and gives `n`, whatever text that does not go
on with a number follows it. -/
def StopsAfter (read : (s : List Char) → Step Number s) (n : Number) (u : List Char) : Prop :=
  ∀ rest, NumberEnd rest → Step.out (read (u ++ rest)) = .ok (n, rest)

theorem NumberEnd.not_digit {rest : List Char} (h : NumberEnd rest) :
    ∀ c ∈ rest.head?, isDigit c = false :=
  fun c hc => (h c hc).1

/-- The head of `u ++ rest` is no digit when `u` is empty and `rest` ends a
number, or when `u` starts with a character that is no digit. -/
theorem head_not_digit {u rest : List Char} (hr : NumberEnd rest)
    (hu : ∀ c ∈ u.head?, isDigit c = false) : ∀ c ∈ (u ++ rest).head?, isDigit c = false := by
  cases u with
  | nil => exact hr.not_digit
  | cons d u => simpa using hu

/-! ## Digits passed over -/

theorem skipDigits_spec (t : List Char) :
    ∃ u, t = u ++ (skipDigits t).1 ∧ (∀ c ∈ u, isDigit c = true) ∧
      ∀ c ∈ (skipDigits t).1.head?, isDigit c = false := by
  induction t with
  | nil => exact ⟨[], rfl, by simp, by simp [skipDigits]⟩
  | cons c cs ih =>
    by_cases hc : isDigit c = true
    · obtain ⟨u, hu, hdig, hend⟩ := ih
      have hstep : (skipDigits (c :: cs)).1 = (skipDigits cs).1 := by simp [skipDigits, hc]
      refine ⟨c :: u, ?_, ?_, ?_⟩
      · rw [hstep, List.cons_append, ← hu]
      · simpa [hc] using hdig
      · rwa [hstep]
    · have hstep : (skipDigits (c :: cs)).1 = c :: cs := by simp [skipDigits, hc]
      exact ⟨[], by rw [hstep]; rfl, by simp, by simpa [hstep] using hc⟩

theorem skipDigits_append {u w : List Char} (hu : ∀ c ∈ u, isDigit c = true)
    (hw : ∀ c ∈ w.head?, isDigit c = false) : (skipDigits (u ++ w)).1 = w := by
  induction u with
  | nil =>
    cases w with
    | nil => rfl
    | cons d w => simp [skipDigits, hw d (by simp)]
  | cons c u ih =>
    have hc := hu c (by simp)
    simp only [List.cons_append, skipDigits, hc, if_true, Rest.val_cons]
    exact ih fun d hd => hu d (by simp [hd])

/-! ## The double at the end -/

theorem finishFloat_stops {positive : Bool} {sig : Nat} {e : Int} {t : List Char} {n : Number}
    {r : List Char} (h : Step.out (finishFloat positive sig e t) = .ok (n, r)) :
    r = t ∧ ∀ s, Step.out (finishFloat positive sig e s) = .ok (n, s) := by
  simp only [finishFloat] at h ⊢
  cases hf : floatOfParts sig e with
  | none => simp [hf] at h
  | some f =>
    simp only [hf, Step.out_ok, Rest.val_refl, Except.ok.injEq, Prod.mk.injEq] at h
    obtain ⟨rfl, rfl⟩ := h
    exact ⟨rfl, fun s => rfl⟩

/-- A double read at its very end is read the same at the end of any text. -/
theorem finishFloat_stopsAfter {positive : Bool} {sig : Nat} {e : Int} {n : Number}
    (h : ∀ s, Step.out (finishFloat positive sig e s) = .ok (n, s))
    {read : (s : List Char) → Step Number s}
    (hread : ∀ rest, NumberEnd rest →
      Step.out (read rest) = Step.out (finishFloat positive sig e rest)) :
    StopsAfter read n [] := by
  intro rest hr
  rw [List.nil_append, hread rest hr, h]

/-! ## Exponents -/

section Exponent

variable {positive : Bool} {sig : Nat} {start : Int} {pe : Bool}

theorem exponentOverflow_stops {zero : Bool} {t : List Char} {n : Number} {r : List Char}
    (h : Step.out (exponentOverflow positive zero pe t) = .ok (n, r)) :
    ∃ u, t = u ++ r ∧ StopsAfter (exponentOverflow positive zero pe) n u := by
  unfold exponentOverflow at h
  split at h
  · simp at h
  · rename_i hgrow
    simp only [Step.out_ok, Except.ok.injEq, Prod.mk.injEq] at h
    obtain ⟨rfl, rfl⟩ := h
    obtain ⟨u, hu, hdig, -⟩ := skipDigits_spec t
    refine ⟨u, hu, fun rest hr => ?_⟩
    simp [exponentOverflow, hgrow, skipDigits_append hdig hr.not_digit]

theorem exponentDigits_end {acc : Nat} {rest : List Char}
    (hr : ∀ c ∈ rest.head?, isDigit c = false) :
    Step.out (exponentDigits positive sig start pe acc rest) =
      Step.out (finishFloat positive sig
        (clampExponent (if pe then start + acc else start - acc)) rest) := by
  cases rest with
  | nil => rfl
  | cons c t => simp [exponentDigits, hr c (by simp)]

theorem exponentDigits_stops {acc : Nat} {t : List Char} {n : Number} {r : List Char}
    (h : Step.out (exponentDigits positive sig start pe acc t) = .ok (n, r)) :
    ∃ u, t = u ++ r ∧ StopsAfter (exponentDigits positive sig start pe acc) n u := by
  induction t generalizing acc with
  | nil =>
    obtain ⟨rfl, hf⟩ := finishFloat_stops h
    exact ⟨[], rfl, finishFloat_stopsAfter hf fun rest hr => exponentDigits_end hr.not_digit⟩
  | cons c cs ih =>
    by_cases hc : isDigit c = true
    · by_cases hover : acc * 10 + digitValue c > 2147483647
      · simp only [exponentDigits, hc, hover, if_true, Step.out_map, Rest.val_cons, and_self,
          implies_true] at h
        obtain ⟨u, rfl, hu⟩ := exponentOverflow_stops h
        refine ⟨c :: u, rfl, fun rest hr => ?_⟩
        rw [List.cons_append]
        simpa [exponentDigits, hc, hover] using hu rest hr
      · simp only [exponentDigits, hc, hover, if_true, if_false, Step.out_map,
          Rest.val_cons, and_self, implies_true] at h
        obtain ⟨u, rfl, hu⟩ := ih h
        refine ⟨c :: u, rfl, fun rest hr => ?_⟩
        rw [List.cons_append]
        simpa [exponentDigits, hc, hover] using hu rest hr
    · simp only [exponentDigits, hc, Bool.false_eq_true, if_false] at h
      obtain ⟨rfl, hf⟩ := finishFloat_stops h
      exact ⟨[], rfl, finishFloat_stopsAfter hf fun rest hr => exponentDigits_end hr.not_digit⟩

/-- An exponent's digits start with a digit, which the exponent takes. -/
theorem exponentStart_stops {t : List Char} {n : Number} {r : List Char}
    (h : Step.out (exponentStart positive sig start pe t) = .ok (n, r)) :
    ∃ c u, isDigit c = true ∧ t = c :: u ++ r ∧
      StopsAfter (exponentStart positive sig start pe) n (c :: u) := by
  cases t with
  | nil => simp [exponentStart] at h
  | cons c cs =>
    by_cases hc : isDigit c = true
    · simp only [exponentStart, hc, if_true, Step.out_map, Rest.val_cons, and_self, implies_true] at h
      obtain ⟨u, rfl, hu⟩ := exponentDigits_stops h
      refine ⟨c, u, hc, rfl, fun rest hr => ?_⟩
      rw [List.cons_append]
      simpa [exponentStart, hc] using hu rest hr
    · simp [exponentStart, hc] at h

/-- An exponent, from its mark on: an optional sign, then digits. -/
theorem exponent_stops {e : Char} {cs : List Char} {n : Number} {r : List Char}
    (h : Step.out (exponent positive sig start (e :: cs)) = .ok (n, r)) :
    ∃ u, cs = u ++ r ∧ StopsAfter (exponent positive sig start) n (e :: u) := by
  simp only [exponent, Step.out_map, Rest.val_cons, and_self, implies_true] at h
  split at h
  · simp only [Step.out_map, Rest.val_cons, and_self, implies_true] at h
    obtain ⟨c, u, -, rfl, hu⟩ := exponentStart_stops h
    refine ⟨'+' :: c :: u, rfl, fun rest hr => ?_⟩
    rw [List.cons_append, List.cons_append]
    simpa [exponent] using hu rest hr
  · simp only [Step.out_map, Rest.val_cons, and_self, implies_true] at h
    obtain ⟨c, u, -, rfl, hu⟩ := exponentStart_stops h
    refine ⟨'-' :: c :: u, rfl, fun rest hr => ?_⟩
    rw [List.cons_append, List.cons_append]
    simpa [exponent] using hu rest hr
  · rename_i other hplus hminus
    obtain ⟨c, u, hc, rfl, hu⟩ := exponentStart_stops h
    refine ⟨c :: u, rfl, fun rest hr => ?_⟩
    -- a digit is no sign, so the exponent reads it as its first digit
    have hcp : c ≠ '+' := by rintro rfl; exact absurd hc (by decide)
    have hcm : c ≠ '-' := by rintro rfl; exact absurd hc (by decide)
    rw [List.cons_append, List.cons_append]
    simpa [exponent, hcp, hcm] using hu rest hr

end Exponent

/-! ## Fractions -/

section Fraction

variable {positive : Bool} {sig : Nat} {e : Int}

theorem afterFraction_end {rest : List Char} (hr : NumberEnd rest) :
    Step.out (afterFraction positive sig e rest) = Step.out (finishFloat positive sig e rest) := by
  cases rest with
  | nil => rfl
  | cons c t =>
    obtain ⟨-, -, h2, h3⟩ := hr c (by simp)
    simp [afterFraction, h2, h3]

theorem afterFraction_stops {t : List Char} {n : Number} {r : List Char}
    (h : Step.out (afterFraction positive sig e t) = .ok (n, r)) :
    ∃ u, t = u ++ r ∧ (∀ c ∈ u.head?, c = 'e' ∨ c = 'E') ∧
      StopsAfter (afterFraction positive sig e) n u := by
  cases t with
  | nil =>
    obtain ⟨rfl, hf⟩ := finishFloat_stops h
    exact ⟨[], rfl, by simp, finishFloat_stopsAfter hf fun rest hr => afterFraction_end hr⟩
  | cons c cs =>
    by_cases hc : (c = 'e' || c = 'E') = true
    · simp only [afterFraction, hc, if_true] at h
      obtain ⟨u, rfl, hu⟩ := exponent_stops h
      refine ⟨c :: u, rfl, by simpa using hc, fun rest hr => ?_⟩
      rw [List.cons_append]
      simpa [afterFraction, hc] using hu rest hr
    · simp only [afterFraction, hc, Bool.false_eq_true, if_false] at h
      obtain ⟨rfl, hf⟩ := finishFloat_stops h
      exact ⟨[], rfl, by simp, finishFloat_stopsAfter hf fun rest hr => afterFraction_end hr⟩

/-- Fraction digits beyond what the significand holds are passed over. -/
theorem fractionOverflow_stops {d : Char} (hd : isDigit d = true) {cs : List Char} {n : Number}
    {r : List Char} (h : Step.out (fractionOverflow positive sig e (d :: cs)) = .ok (n, r)) :
    ∃ u, cs = u ++ r ∧ StopsAfter (fractionOverflow positive sig e) n (d :: u) := by
  have hstep : (skipDigits (d :: cs)).1 = (skipDigits cs).1 := by simp [skipDigits, hd]
  simp only [fractionOverflow, Step.out_map, Rest.val_trans, and_self, implies_true] at h
  rw [hstep] at h
  -- the digits passed over are `d` and the digits after it
  obtain ⟨w, hw, hdig, -⟩ := skipDigits_spec cs
  obtain ⟨u2, hsplit, hmark, hu2⟩ := afterFraction_stops h
  refine ⟨w ++ u2, by rw [hw, hsplit, List.append_assoc], fun rest hr => ?_⟩
  have hhead : ∀ c ∈ (u2 ++ rest).head?, isDigit c = false := by
    apply head_not_digit hr
    intro c hc
    rcases hmark c hc with rfl | rfl <;> rfl
  have hskip := skipDigits_append (u := d :: w) (by simpa [hd] using hdig) hhead
  rw [show d :: (w ++ u2) ++ rest = (d :: w) ++ (u2 ++ rest) by simp]
  simp only [fractionOverflow, Step.out_map, Rest.val_trans, and_self, implies_true]
  rw [hskip]
  exact hu2 rest hr

theorem fractionDigits_of_head {count : Nat} (hcount : count ≠ 0) {before : Int} {w : List Char}
    (hw : ∀ c ∈ w.head?, isDigit c = false) :
    Step.out (fractionDigits positive sig before count w) =
      Step.out (afterFraction positive sig (before - count) w) := by
  cases w with
  | nil => simp [fractionDigits, hcount]
  | cons c t => simp [fractionDigits, hw c (by simp), hcount]

theorem fractionDigits_stops {before : Int} {count : Nat} {t : List Char} {n : Number}
    {r : List Char} (h : Step.out (fractionDigits positive sig before count t) = .ok (n, r)) :
    ∃ u, t = u ++ r ∧ StopsAfter (fractionDigits positive sig before count) n u := by
  induction t generalizing sig count with
  | nil =>
    have hcount : count ≠ 0 := by rintro rfl; simp [fractionDigits] at h
    rw [fractionDigits_of_head hcount (by simp)] at h
    obtain ⟨u, hu, -, hstop⟩ := afterFraction_stops h
    obtain ⟨rfl, rfl⟩ := List.append_eq_nil_iff.mp hu.symm
    refine ⟨[], rfl, fun rest hr => ?_⟩
    rw [fractionDigits_of_head hcount (head_not_digit hr (by simp))]
    exact hstop rest hr
  | cons c cs ih =>
    by_cases hc : isDigit c = true
    · by_cases hover : sig * 10 + digitValue c ≥ Nat.pow 2 64
      · simp only [fractionDigits, hc, hover, if_true] at h
        obtain ⟨u, rfl, hu⟩ := fractionOverflow_stops hc h
        refine ⟨c :: u, rfl, fun rest hr => ?_⟩
        rw [List.cons_append]
        simpa [fractionDigits, hc, hover] using hu rest hr
      · simp only [fractionDigits, hc, hover, if_true, if_false, Step.out_map,
          Rest.val_cons, and_self, implies_true] at h
        obtain ⟨u, rfl, hu⟩ := ih h
        refine ⟨c :: u, rfl, fun rest hr => ?_⟩
        rw [List.cons_append]
        simpa [fractionDigits, hc, hover] using hu rest hr
    · have hcount : count ≠ 0 := by
        rintro rfl
        simp [fractionDigits, hc] at h
      rw [fractionDigits_of_head hcount (by simpa using hc)] at h
      obtain ⟨u, hu, hmark, hstop⟩ := afterFraction_stops h
      refine ⟨u, hu, fun rest hr => ?_⟩
      -- what follows the fraction's digits starts with no digit
      have hhead : ∀ d ∈ u.head?, isDigit d = false := by
        intro d hd
        rcases hmark d hd with rfl | rfl <;> rfl
      rw [fractionDigits_of_head hcount (head_not_digit hr hhead)]
      exact hstop rest hr

theorem fraction_cons (before : Int) (p : Char) (cs : List Char) :
    Step.out (fraction positive sig before (p :: cs)) =
      Step.out (fractionDigits positive sig before 0 cs) := by
  simp [fraction]

end Fraction

/-! ## Integer parts -/

section Integer

variable {positive : Bool} {sig : Nat}

theorem longInteger_end {exp : Int} {rest : List Char} (hr : NumberEnd rest) :
    Step.out (longInteger positive sig exp rest) = Step.out (finishFloat positive sig exp rest) := by
  cases rest with
  | nil => rfl
  | cons c t =>
    obtain ⟨h0, h1, h2, h3⟩ := hr c (by simp)
    simp [longInteger, h0, h1, h2, h3]

/-- Integer digits once the significand is full. -/
theorem longInteger_stops {exp : Int} {t : List Char} {n : Number} {r : List Char}
    (h : Step.out (longInteger positive sig exp t) = .ok (n, r)) :
    ∃ u, t = u ++ r ∧ StopsAfter (longInteger positive sig exp) n u := by
  induction t generalizing exp with
  | nil =>
    obtain ⟨rfl, hf⟩ := finishFloat_stops h
    exact ⟨[], rfl, finishFloat_stopsAfter hf fun rest hr => longInteger_end hr⟩
  | cons c cs ih =>
    by_cases hc : isDigit c = true
    · simp only [longInteger, hc, if_true, Step.out_map, Rest.val_cons, and_self,
        implies_true] at h
      obtain ⟨u, rfl, hu⟩ := ih h
      refine ⟨c :: u, rfl, fun rest hr => ?_⟩
      rw [List.cons_append]
      simpa [longInteger, hc] using hu rest hr
    by_cases hp : c = '.'
    · subst hp
      simp only [longInteger, hc, Bool.false_eq_true, if_false, if_true] at h
      rw [fraction_cons] at h
      obtain ⟨u, rfl, hu⟩ := fractionDigits_stops h
      refine ⟨'.' :: u, rfl, fun rest hr => ?_⟩
      rw [List.cons_append]
      simp only [longInteger, hc, Bool.false_eq_true, if_false, if_true]
      rw [fraction_cons]
      exact hu rest hr
    by_cases he : (c = 'e' || c = 'E') = true
    · simp only [longInteger, hc, hp, he, Bool.false_eq_true, if_false, if_true] at h
      obtain ⟨u, rfl, hu⟩ := exponent_stops h
      refine ⟨c :: u, rfl, fun rest hr => ?_⟩
      rw [List.cons_append]
      simpa [longInteger, hc, hp, he] using hu rest hr
    · simp only [longInteger, hc, hp, he, Bool.false_eq_true, if_false] at h
      obtain ⟨rfl, hf⟩ := finishFloat_stops h
      exact ⟨[], rfl, finishFloat_stopsAfter hf fun rest hr => longInteger_end hr⟩

/-- What follows the integer digits: a fraction, an exponent, or nothing
that belongs to the number. -/
theorem afterInteger_stops {t : List Char} {n : Number} {r : List Char}
    (h : Step.out (afterInteger positive sig t) = .ok (n, r)) :
    ∃ u, t = u ++ r ∧ (∀ c ∈ u.head?, isDigit c = false) ∧
      StopsAfter (afterInteger positive sig) n u := by
  have hend : ∀ n', n' = integerValue positive sig → StopsAfter (afterInteger positive sig) n' [] :=
    fun n' hn' rest hr => by rw [hn', List.nil_append, afterInteger_end positive sig hr]
  cases t with
  | nil =>
    simp only [afterInteger, Step.out_ok, Rest.val_refl, Except.ok.injEq, Prod.mk.injEq] at h
    obtain ⟨rfl, rfl⟩ := h
    exact ⟨[], rfl, by simp, hend _ rfl⟩
  | cons c cs =>
    by_cases hp : c = '.'
    · subst hp
      simp only [afterInteger, if_true] at h
      rw [fraction_cons] at h
      obtain ⟨u, rfl, hu⟩ := fractionDigits_stops h
      refine ⟨'.' :: u, rfl, by simp; decide, fun rest hr => ?_⟩
      rw [List.cons_append]
      simp only [afterInteger, if_true]
      rw [fraction_cons]
      exact hu rest hr
    by_cases he : (c = 'e' || c = 'E') = true
    · simp only [afterInteger, hp, he, if_false, if_true] at h
      obtain ⟨u, rfl, hu⟩ := exponent_stops h
      have hcd : isDigit c = false := by
        rcases (by simpa using he : c = 'e' ∨ c = 'E') with rfl | rfl <;> rfl
      refine ⟨c :: u, rfl, by simpa using hcd, fun rest hr => ?_⟩
      rw [List.cons_append]
      simpa [afterInteger, hp, he] using hu rest hr
    · simp only [afterInteger, hp, he, Bool.false_eq_true, if_false, Step.out_ok, Rest.val_refl,
        Except.ok.injEq, Prod.mk.injEq] at h
      obtain ⟨rfl, rfl⟩ := h
      exact ⟨[], rfl, by simp, hend _ rfl⟩

theorem integerDigits_of_head {w : List Char} (hw : ∀ c ∈ w.head?, isDigit c = false) :
    Step.out (integerDigits positive sig w) = Step.out (afterInteger positive sig w) := by
  cases w with
  | nil => rfl
  | cons c t => simp [integerDigits, hw c (by simp)]

/-- Integer digits while the value fits in 64 bits. -/
theorem integerDigits_stops {t : List Char} {n : Number} {r : List Char}
    (h : Step.out (integerDigits positive sig t) = .ok (n, r)) :
    ∃ u, t = u ++ r ∧ StopsAfter (integerDigits positive sig) n u := by
  induction t generalizing sig with
  | nil =>
    rw [integerDigits_of_head (by simp)] at h
    obtain ⟨u, hu, -, hstop⟩ := afterInteger_stops h
    obtain ⟨rfl, rfl⟩ := List.append_eq_nil_iff.mp hu.symm
    refine ⟨[], rfl, fun rest hr => ?_⟩
    rw [integerDigits_of_head (head_not_digit hr (by simp))]
    exact hstop rest hr
  | cons c cs ih =>
    by_cases hc : isDigit c = true
    · by_cases hover : sig * 10 + digitValue c ≥ Nat.pow 2 64
      · -- the significand is full: the digits go on as a long integer
        simp only [integerDigits, hc, hover, if_true, longInteger, Step.out_map, Rest.val_cons,
          and_self, implies_true] at h
        obtain ⟨u, rfl, hu⟩ := longInteger_stops h
        refine ⟨c :: u, rfl, fun rest hr => ?_⟩
        rw [List.cons_append]
        simpa [integerDigits, hc, hover, longInteger] using hu rest hr
      · simp only [integerDigits, hc, hover, if_true, if_false, Step.out_map, Rest.val_cons,
          and_self, implies_true] at h
        obtain ⟨u, rfl, hu⟩ := ih h
        refine ⟨c :: u, rfl, fun rest hr => ?_⟩
        rw [List.cons_append]
        simpa [integerDigits, hc, hover] using hu rest hr
    · rw [integerDigits_of_head (by simpa using hc)] at h
      obtain ⟨u, hu, hhead, hstop⟩ := afterInteger_stops h
      refine ⟨u, hu, fun rest hr => ?_⟩
      rw [integerDigits_of_head (head_not_digit hr hhead)]
      exact hstop rest hr

theorem unsignedNumber_zero {w : List Char} (hw : ∀ c ∈ w.head?, isDigit c = false) :
    Step.out (unsignedNumber positive ('0' :: w)) = Step.out (afterInteger positive 0 w) := by
  cases w with
  | nil => simp [unsignedNumber]
  | cons c t => simp [unsignedNumber, hw c (by simp)]

/-- Every number the reader reads ends where its text ends. -/
theorem unsignedNumber_stops {t : List Char} {n : Number} {r : List Char}
    (h : Step.out (unsignedNumber positive t) = .ok (n, r)) :
    ∃ u, t = u ++ r ∧ StopsAfter (unsignedNumber positive) n u := by
  cases t with
  | nil => simp [unsignedNumber] at h
  | cons c cs =>
    by_cases h0 : c = '0'
    · subst h0
      -- a leading zero stands alone
      have hcs : ∀ d ∈ cs.head?, isDigit d = false := by
        intro d hd
        cases cs with
        | nil => simp at hd
        | cons x t =>
          simp only [List.head?_cons, Option.mem_def, Option.some.injEq] at hd
          subst hd
          by_contra hx
          have hx' : isDigit x = true := by simpa using hx
          simp [unsignedNumber, hx'] at h
      rw [unsignedNumber_zero hcs] at h
      obtain ⟨u, rfl, hhead, hstop⟩ := afterInteger_stops h
      refine ⟨'0' :: u, rfl, fun rest hr => ?_⟩
      rw [List.cons_append, unsignedNumber_zero (head_not_digit hr hhead)]
      exact hstop rest hr
    by_cases hc : isDigit c = true
    · simp only [unsignedNumber, h0, hc, if_true, if_false, Step.out_map, Rest.val_cons,
        and_self, implies_true] at h
      obtain ⟨u, rfl, hu⟩ := integerDigits_stops h
      refine ⟨c :: u, rfl, fun rest hr => ?_⟩
      rw [List.cons_append]
      simpa [unsignedNumber, h0, hc] using hu rest hr
    · simp [unsignedNumber, h0, hc] at h

end Integer

/-! ## The text of a double -/

/-- Text without blank space. -/
def NoBlank (s : String) : Prop := ∀ c ∈ s.toList, isBlank c = false

theorem isBlank_eq_false_of_isDigit {c : Char} (h : c.isDigit = true) : isBlank c = false := by
  cases hb : isBlank c
  · rfl
  · simp only [isBlank, Bool.or_eq_true, decide_eq_true_eq] at hb
    rcases hb with ((rfl | rfl) | rfl) | rfl <;> exact absurd h (by decide)

@[simp] theorem noBlank_append {a b : String} : NoBlank (a ++ b) ↔ NoBlank a ∧ NoBlank b := by
  simp [NoBlank, or_imp, forall_and]

@[simp] theorem noBlank_ite {p : Prop} [Decidable p] {a b : String} :
    NoBlank (if p then a else b) ↔ (p → NoBlank a) ∧ (¬p → NoBlank b) := by
  split <;> simp [*]

@[simp] theorem noBlank_digitsText (m : Nat) : NoBlank (Decimal.digitsText m) := by
  intro c hc
  simp only [Decimal.digitsText, String.toList_ofList] at hc
  exact isBlank_eq_false_of_isDigit (Nat.isDigit_of_mem_toDigits (by decide) (by decide) hc)

@[simp] theorem noBlank_zeros (n : Nat) : NoBlank (Decimal.zeros n) := by
  intro c hc
  simp only [Decimal.zeros, String.toList_ofList, List.mem_replicate] at hc
  rw [hc.2]
  rfl

@[simp] theorem noBlank_take {s : String} (h : NoBlank s) (k : Nat) :
    NoBlank (String.ofList (s.toList.take k)) :=
  fun c hc => h c (List.mem_of_mem_take (by simpa using hc))

@[simp] theorem noBlank_drop {s : String} (h : NoBlank s) (k : Nat) :
    NoBlank (String.ofList (s.toList.drop k)) :=
  fun c hc => h c (List.mem_of_mem_drop (by simpa using hc))

@[simp] theorem noBlank_tail {s : String} (h : NoBlank s) :
    NoBlank (String.ofList s.toList.tail) :=
  fun c hc => h c (List.mem_of_mem_tail (by simpa using hc))

theorem isBlank_marks : isBlank '-' = false ∧ isBlank '+' = false ∧ isBlank '.' = false ∧
    isBlank '0' = false ∧ isBlank 'e' = false ∧ isBlank 'N' = false ∧ isBlank 'a' = false ∧
    isBlank 'i' = false ∧ isBlank 'n' = false ∧ isBlank 'f' = false := by
  decide

/-- The fixed pieces of the text of a double. -/
theorem noBlank_marks : NoBlank "" ∧ NoBlank "-" ∧ NoBlank "+" ∧ NoBlank "." ∧ NoBlank "e" ∧
    NoBlank "0" ∧ NoBlank "0." ∧ NoBlank ".0" ∧ NoBlank "0.0" ∧ NoBlank "NaN" ∧
    NoBlank "inf" ∧ NoBlank "-inf" := by
  simp [NoBlank, isBlank_marks]

theorem noBlank_render (l : Decimal.Layout) (negative : Bool) (d : Decimal.Numeral) :
    NoBlank (l.render negative d) := by
  dsimp only [Decimal.Layout.render]
  simp [noBlank_marks]

/-- The JSON text of a double holds no blank space. -/
theorem noBlank_renderFloat (x : Float) : NoBlank (Number.float x).render := by
  simp only [Number.render, Decimal.Layout.renderFloat, noBlank_append, noBlank_ite,
    noBlank_render]
  simp [noBlank_marks]

end EntityGraph.Json
