import EntityGraph.Json.Basic
import EntityGraph.Json.Fault
import EntityGraph.Text.Rest
/-! The tokens of JSON text, read from the front of a character list: blank
space, the names `null`, `true` and `false`, strings with their escapes,
and numbers. Every reader returns the text after what it read together with
the fact that it is no longer than before, which is what makes the readers
of nested values terminate.

A number keeps the kind of its text: digits alone are an unsigned integer
while they fit in 64 bits, a minus sign and digits a negative integer while
it is not below -2^63, and everything else a double. The double is built
from the decimal significand (at most nineteen digits are kept, the others
only move the exponent) by one multiplication or division by a power of
ten, as `Number.ofParts` says. -/

namespace EntityGraph.Json

/-- The result of reading from the front of `s`. -/
abbrev Step (α : Type) (s : List Char) := Except Fault (α × Rest s)

/-- Blank space between tokens: space, tab, line feed, carriage return. -/
def isBlank (c : Char) : Bool :=
  c = ' ' || c = '\t' || c = '\n' || c = '\r'

/-- The text after its leading blank space. -/
def skipBlank : List Char → List Char
  | [] => []
  | c :: cs => if isBlank c then skipBlank cs else c :: cs

theorem length_skipBlank_le : ∀ s : List Char, (skipBlank s).length ≤ s.length
  | [] => Nat.le_refl _
  | c :: cs => by
    unfold skipBlank
    split
    · exact Nat.le_succ_of_le (length_skipBlank_le cs)
    · exact Nat.le_refl _

/-- Skips leading blank space. -/
def blank (s : List Char) : Rest s := ⟨skipBlank s, length_skipBlank_le s⟩

/-- Reads the remaining letters of a name such as `null` after its first. -/
def ident : List Char → (s : List Char) → Except Fault (Rest s)
  | [], s => .ok (Rest.refl s)
  | _ :: _, [] => .error (Fault.here .eofWhileParsingValue [])
  | w :: ws, c :: cs =>
    if c = w then (ident ws cs).map (Rest.cons c)
    else .error (Fault.here .expectedSomeIdent cs)

/-- The value of a hexadecimal digit. -/
def hexValue (c : Char) : Option Nat :=
  if '0' ≤ c ∧ c ≤ '9' then some (c.toNat - 48)
  else if 'a' ≤ c ∧ c ≤ 'f' then some (c.toNat - 87)
  else if 'A' ≤ c ∧ c ≤ 'F' then some (c.toNat - 55)
  else none

/-- Reads the four hexadecimal digits of a `\u` escape. Four bytes are
taken whatever they hold; fewer than four before the end are an unfinished
string. -/
def hex4 (s : List Char) : Step Nat s :=
  match s with
  | a :: b :: c :: d :: rest =>
    match hexValue a, hexValue b, hexValue c, hexValue d with
    | some x, some y, some z, some w =>
      .ok (((x * 16 + y) * 16 + z) * 16 + w, Rest.cons a (Rest.cons b (Rest.cons c (Rest.tail d rest))))
    | _, _, _, _ => .error (.placed (.malformed .invalidEscape) ⟨s, 4⟩)
  | _ =>
    if Text.utf8Length s ≥ 4 then .error (.placed (.malformed .invalidEscape) ⟨s, 4⟩)
    else .error (Fault.here .eofWhileParsingString [])

/-- A leading (high) surrogate code unit. -/
def isLeadingSurrogate (n : Nat) : Bool := 0xD800 ≤ n && n ≤ 0xDBFF

/-- A trailing (low) surrogate code unit. -/
def isTrailingSurrogate (n : Nat) : Bool := 0xDC00 ≤ n && n ≤ 0xDFFF

/-- Reads a `\u` escape after the `u`. A leading surrogate must be followed
by an escaped trailing one; the pair stands for one character. -/
def unicodeEscape (s : List Char) : Step Char s :=
  match hex4 s with
  | .error f => .error f
  | .ok (n, r) =>
    if isTrailingSurrogate n then .error (Fault.here .loneLeadingSurrogateInHexEscape r.1)
    else if !isLeadingSurrogate n then .ok (Char.ofNat n, r)
    else
      match h : r.1 with
      | [] => .error (Fault.here .eofWhileParsingString [])
      | '\\' :: r2 =>
        match r2 with
        | [] => .error (Fault.here .eofWhileParsingString [])
        | 'u' :: r3 =>
          match hex4 r3 with
          | .error f => .error f
          | .ok (n2, r4) =>
            if isTrailingSurrogate n2 then
              .ok (Char.ofNat ((n - 0xD800) * 0x400 + (n2 - 0xDC00) + 0x10000),
                ⟨r4.1, by have := r.2; have := r4.2; rw [h] at *; simp at *; omega⟩)
            else .error (Fault.here .loneLeadingSurrogateInHexEscape r4.1)
        | x :: more => .error (.placed (.malformed .unexpectedEndOfHexEscape) ⟨x :: more, 1⟩)
      | x :: more => .error (.placed (.malformed .unexpectedEndOfHexEscape) ⟨x :: more, 1⟩)

/-- Reads an escape after its backslash. -/
def escape (s : List Char) : Step Char s :=
  match s with
  | [] => .error (Fault.here .eofWhileParsingString [])
  | c :: cs =>
    let short (x : Char) : Step Char (c :: cs) := .ok (x, Rest.tail c cs)
    if c = '"' then short '"'
    else if c = '\\' then short '\\'
    else if c = '/' then short '/'
    else if c = 'b' then short (Char.ofNat 8)
    else if c = 'f' then short (Char.ofNat 12)
    else if c = 'n' then short '\n'
    else if c = 'r' then short '\r'
    else if c = 't' then short '\t'
    else if c = 'u' then (unicodeEscape cs).map (fun (x, r) => (x, Rest.cons c r))
    else .error (.placed (.malformed .invalidEscape) ⟨c :: cs, 1⟩)

/-- Reads the rest of a string after its opening quote, the characters
read so far held reversed in `acc`. A control character must be escaped. -/
def stringBody (acc : List Char) (s : List Char) : Step String s :=
  match s with
  | [] => .error (Fault.here .eofWhileParsingString [])
  | c :: cs =>
    if c = '"' then .ok (String.ofList acc.reverse, Rest.tail c cs)
    else if c = '\\' then
      match escape cs with
      | .error f => .error f
      | .ok (x, r) =>
        (stringBody (x :: acc) r.1).map (fun (v, q) => (v, Rest.cons c (r.trans q)))
    else if c.toNat < 0x20 then .error (Fault.here .controlCharacterWhileParsingString cs)
    else (stringBody (c :: acc) cs).map (fun (v, q) => (v, Rest.cons c q))
termination_by s.length
decreasing_by all_goals (simp_wf; try (have _hr := r.2; omega))

/-- Reads a string after its opening quote. -/
def string (s : List Char) : Step String s := stringBody [] s

/-- Passes over an escape after its backslash, checking only its form. -/
def skipEscape (s : List Char) : Except Fault (Rest s) :=
  match s with
  | [] => .error (Fault.here .eofWhileParsingString [])
  | c :: cs =>
    if c = '"' || c = '\\' || c = '/' || c = 'b' || c = 'f' || c = 'n' || c = 'r' || c = 't' then
      .ok (Rest.tail c cs)
    else if c = 'u' then (hex4 cs).map (fun (_, r) => Rest.cons c r)
    else .error (.placed (.malformed .invalidEscape) ⟨c :: cs, 1⟩)

/-- Passes over the rest of a string after its opening quote. Any `\u`
escape is accepted here, paired or not. -/
def skipString (s : List Char) : Except Fault (Rest s) :=
  match s with
  | [] => .error (Fault.here .eofWhileParsingString [])
  | c :: cs =>
    if c = '"' then .ok (Rest.tail c cs)
    else if c = '\\' then
      match skipEscape cs with
      | .error f => .error f
      | .ok r => (skipString r.1).map (fun q => Rest.cons c (r.trans q))
    else if c.toNat < 0x20 then .error (Fault.here .controlCharacterWhileParsingString (c :: cs))
    else (skipString cs).map (Rest.cons c)
termination_by s.length
decreasing_by all_goals (simp_wf; try (have _hr := r.2; omega))

end EntityGraph.Json
