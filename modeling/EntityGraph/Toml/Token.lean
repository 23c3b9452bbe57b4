import EntityGraph.Toml.Basic
/-! The tokens of TOML text: blank space, comments, line ends, keys,
strings, numbers, booleans and dates. Each reader works on the front of
the text and reports a problem at the character where the text stops
fitting the grammar. -/

namespace EntityGraph.Toml

/-- The message for a value that starts with no value's first character. -/
def invalidValueText : String := "invalid string\nexpected `\"`, `'`"

/-- Space or tab. -/
def isBlank (c : Char) : Bool := c = ' ' || c = '\t'

/-- Skips spaces and tabs. -/
def blank : (s : List Char) → Rest s
  | [] => Rest.refl []
  | c :: cs => if isBlank c then Rest.cons c (blank cs) else Rest.refl (c :: cs)

/-- A control character other than tab, which strings and comments may not
hold. -/
def isControl (c : Char) : Bool := (c.toNat < 0x20 && c ≠ '\t') || c.toNat = 0x7F

/-- Skips the text of a comment after its `#`: it runs up to the first
control character, which is normally the line end. -/
def comment : (s : List Char) → Rest s
  | [] => Rest.refl []
  | c :: cs => if isControl c then Rest.refl (c :: cs) else Rest.cons c (comment cs)

/-- Reads a line end: a line feed, or a carriage return and a line feed. -/
def lineEnd? (s : List Char) : Option (Rest s) :=
  match s with
  | '\n' :: cs => some (Rest.tail '\n' cs)
  | '\r' :: '\n' :: cs => some (Rest.cons '\r' (Rest.tail '\n' cs))
  | _ => none

/-- A character of a bare key. -/
def isBareKeyChar (c : Char) : Bool := c.isAlphanum || c = '_' || c = '-'

/-- The value of a hexadecimal digit. -/
def hexValue? (c : Char) : Option Nat :=
  if '0' ≤ c ∧ c ≤ '9' then some (c.toNat - 48)
  else if 'a' ≤ c ∧ c ≤ 'f' then some (c.toNat - 87)
  else if 'A' ≤ c ∧ c ≤ 'F' then some (c.toNat - 55)
  else none

/-- Reads exactly `n` hexadecimal digits naming a Unicode scalar value. -/
def hexChar (n : Nat) (label : String) (s : List Char) : Step Char s :=
  let digits := s.take n
  match digits.mapM hexValue? with
  | some vs =>
    if digits.length = n then
      let v := vs.foldl (fun acc d => acc * 16 + d) 0
      if v < 0xD800 || (0xDFFF < v && v ≤ 0x10FFFF) then
        .ok (Char.ofNat v, Rest.skip s n)
      else .error (Problem.at ("invalid " ++ label ++ "\nvalue is out of range") s)
    else .error (Problem.at ("invalid " ++ label) s)
  | none => .error (Problem.at ("invalid " ++ label) s)

/-- The message for a bad escape. -/
def invalidEscapeText : String :=
  "invalid escape sequence\nexpected `b`, `f`, `n`, `r`, `t`, `u`, `U`, `\\`, `\"`"

/-- Reads an escape after its backslash. -/
def escape (s : List Char) : Step Char s :=
  match s with
  | [] => .error (Problem.at invalidEscapeText [])
  | c :: cs =>
    let one (x : Char) : Step Char (c :: cs) := .ok (x, Rest.tail c cs)
    if c = 'b' then one (Char.ofNat 8)
    else if c = 'f' then one (Char.ofNat 12)
    else if c = 'n' then one '\n'
    else if c = 'r' then one '\r'
    else if c = 't' then one '\t'
    else if c = '\\' then one '\\'
    else if c = '"' then one '"'
    else if c = 'u' then (hexChar 4 "unicode 4-digit hex code" cs).map fun (x, r) => (x, Rest.cons c r)
    else if c = 'U' then (hexChar 8 "unicode 8-digit hex code" cs).map fun (x, r) => (x, Rest.cons c r)
    else .error (Problem.at invalidEscapeText cs)

/-- Reads a basic string after its opening quote. -/
def basicBody (acc : List Char) (s : List Char) : Step String s :=
  match s with
  | [] => .error (Problem.at "invalid basic string" [])
  | c :: cs =>
    if c = '"' then .ok (String.ofList acc.reverse, Rest.tail c cs)
    else if c = '\\' then
      match cs with
      | [] => .error (Problem.at "invalid basic string" (c :: cs))
      | d :: ds =>
        match escape (d :: ds) with
        | .error p => .error p
        | .ok (x, r) =>
          (basicBody (x :: acc) r.1).map fun (v, q) => (v, Rest.cons c (r.trans q))
    else if isControl c then .error (Problem.at "invalid basic string" (c :: cs))
    else (basicBody (c :: acc) cs).map fun (v, q) => (v, Rest.cons c q)
termination_by s.length
decreasing_by all_goals (try have _hr := r.2); all_goals (simp only [List.length_cons] at *; omega)

/-- Reads a literal string after its opening apostrophe. -/
def literalBody (acc : List Char) : (s : List Char) → Step String s
  | [] => .error (Problem.at "invalid literal string" [])
  | c :: cs =>
    if c = '\'' then .ok (String.ofList acc.reverse, Rest.tail c cs)
    else if isControl c then .error (Problem.at "invalid literal string" (c :: cs))
    else (literalBody (c :: acc) cs).map fun (v, q) => (v, Rest.cons c q)

/-- Skips the line end right after the opening delimiter of a multi-line
string. -/
def dropFirstLineEnd (s : List Char) : Rest s :=
  match lineEnd? s with
  | some r => r
  | none => Rest.refl s

/-- Skips blank space and line ends (after a line-ending backslash). -/
def blankLines : (s : List Char) → Rest s
  | [] => Rest.refl []
  | c :: cs =>
    if isBlank c || c = '\n' || c = '\r' then Rest.cons c (blankLines cs) else Rest.refl (c :: cs)

/-- The number of quote characters `q` at the front of a text. -/
def quoteRun (q : Char) (s : List Char) : Nat := (s.takeWhile (· == q)).length

/-- Reads the body of a multi-line string after its opening delimiter: it
ends at three quotes `q` (up to two more right before them belong to the
body); `escapes` tells whether backslashes escape. -/
def multiBody (q : Char) (escapes : Bool) (label : String) (acc : List Char) (s : List Char) :
    Step String s :=
  match s with
  | [] => .error (Problem.at ("invalid " ++ label) [])
  | c :: cs =>
    if c = q then
      let run := quoteRun q (c :: cs)
      if run ≥ 3 then
        if run ≤ 5 then
          .ok (String.ofList (acc.reverse ++ List.replicate (run - 3) q),
            Rest.skip (c :: cs) run)
        else .error (Problem.at ("invalid " ++ label) ((c :: cs).drop 5))
      else (multiBody q escapes label (c :: acc) cs).map fun (v, r) => (v, Rest.cons c r)
    else if escapes && c = '\\' then
      let after := blank cs
      match lineEnd? after.1 with
      | some r =>
        let skipped := blankLines r.1
        (multiBody q escapes label acc skipped.1).map fun (v, t) =>
          (v, Rest.cons c (after.trans (r.trans (skipped.trans t))))
      | none =>
        match cs with
        | [] => .error (Problem.at ("invalid " ++ label) (c :: cs))
        | d :: ds =>
          match escape (d :: ds) with
          | .error p => .error p
          | .ok (x, r) => (multiBody q escapes label (x :: acc) r.1).map fun (v, t) =>
              (v, Rest.cons c (r.trans t))
    else if c = '\n' then (multiBody q escapes label ('\n' :: acc) cs).map fun (v, r) => (v, Rest.cons c r)
    else if c = '\r' then
      match cs with
      | '\n' :: ds => (multiBody q escapes label ('\n' :: acc) ds).map fun (v, r) =>
          (v, ⟨r.1, by have := r.2; simp only [List.length_cons] at *; omega⟩)
      | _ => .error (Problem.at ("invalid " ++ label) (c :: cs))
    else if isControl c then .error (Problem.at ("invalid " ++ label) (c :: cs))
    else (multiBody q escapes label (c :: acc) cs).map fun (v, r) => (v, Rest.cons c r)
termination_by s.length
decreasing_by
  all_goals
    try have _h1 := after.2
    try have _h2 := r.2
    try have _h3 := (blankLines r.1).2
    simp only [List.length_cons] at *
    omega

/-- Reads a string of any of the four kinds, from its opening quote. -/
def string (s : List Char) : Step String s :=
  match s with
  | '"' :: '"' :: '"' :: cs =>
    let r := dropFirstLineEnd cs
    (multiBody '"' true "multiline basic string" [] r.1).map fun (v, q) =>
      (v, ⟨q.1, by have := q.2; have := r.2; simp only [List.length_cons] at *; omega⟩)
  | '\'' :: '\'' :: '\'' :: cs =>
    let r := dropFirstLineEnd cs
    (multiBody '\'' false "multiline literal string" [] r.1).map fun (v, q) =>
      (v, ⟨q.1, by have := q.2; have := r.2; simp only [List.length_cons] at *; omega⟩)
  | '"' :: cs => (basicBody [] cs).map fun (v, q) => (v, Rest.cons '"' q)
  | '\'' :: cs => (literalBody [] cs).map fun (v, q) => (v, Rest.cons '\'' q)
  | other => .error (Problem.noStart invalidValueText other)

/-- Reads a bare key. -/
def bareKey (s : List Char) : Option (String × Rest s) :=
  let word := s.takeWhile isBareKeyChar
  if word.isEmpty then none else some (String.ofList word, Rest.skip s word.length)

/-- Reads one part of a key: bare, or quoted. -/
def keyPart (s : List Char) : Step String s :=
  match s with
  | '"' :: cs => (basicBody [] cs).map fun (v, q) => (v, Rest.cons '"' q)
  | '\'' :: cs => (literalBody [] cs).map fun (v, q) => (v, Rest.cons '\'' q)
  | other =>
    match bareKey other with
    | some r => .ok r
    | none => .error (Problem.noStart "invalid key" other)

/-- A key part with the span of its text. -/
structure KeyPart where
  name : String
  span : Span

/-- Reads the parts after the first of a dotted key, each after a dot. A
dot followed by no key part is left unread. -/
def moreKeyParts (acc : List KeyPart) (s : List Char) : Step (List KeyPart) s :=
  let r := blank s
  match h : r.1 with
  | '.' :: cs =>
    let b := blank cs
    match keyPart b.1 with
    | .error p => if p.recoverable then .ok (acc, r) else .error p
    | .ok (name, k) =>
      (moreKeyParts (acc ++ [⟨name, Span.between b.1 k.1⟩]) k.1).map fun (v, q) =>
        (v, ⟨q.1, by have := q.2; have := k.2; have := b.2; have := r.2; rw [h] at *; simp only [List.length_cons] at *; omega⟩)
  | _ => .ok (acc, r)
termination_by s.length
decreasing_by have := k.2; have := b.2; have := r.2; rw [h] at *; simp only [List.length_cons] at *; omega

/-- Reads a key: parts separated by dots, with blank space around them. -/
def key (s : List Char) : Step (List KeyPart) s :=
  let b := blank s
  match keyPart b.1 with
  | .error p => .error p
  | .ok (name, k) =>
    (moreKeyParts [⟨name, Span.between b.1 k.1⟩] k.1).map fun (v, q) => (v, b.trans (k.trans q))

end EntityGraph.Toml
