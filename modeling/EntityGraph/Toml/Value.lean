import EntityGraph.Toml.Number
/-! Reading TOML values: strings, numbers, booleans, dates, arrays and
inline tables. Arrays may span lines and hold comments, and may end in a
comma; inline tables stay on one line. A value that does not start where an
array item or inline-table member is expected ends the list there, and the
closing bracket is then what is missing. -/

namespace EntityGraph.Toml

/-- The name of a value's type. -/
def Value.typeName : Value → String
  | .str _ => "string"
  | .int _ => "integer"
  | .float _ => "float"
  | .bool _ => "boolean"
  | .datetime _ => "datetime"
  | .arr _ => "array"
  | .inline _ => "inline table"

/-- Skips blank space, comments and line ends, as between the items of an
array. A carriage return counts only before a line feed. -/
def betweenItems (s : List Char) : Rest s :=
  match s with
  | [] => Rest.refl []
  | c :: cs =>
    if isBlank c || c = '\n' then Rest.cons c (betweenItems cs)
    else if c = '\r' then
      match cs with
      | '\n' :: ds => Rest.cons c (Rest.cons '\n' (betweenItems ds))
      | other => Rest.refl (c :: other)
    else if c = '#' then
      let r := comment cs
      Rest.cons c (r.trans (betweenItems r.1))
    else Rest.refl (c :: cs)
termination_by s.length
decreasing_by all_goals (try have _h := (comment cs).2); all_goals (simp only [List.length_cons] at *; omega)

/-- Reads a fixed word standing for a value; the word must be whole once its
first letter is seen. -/
def word (w : List Char) (v : Value) (s : List Char) : Step Value s :=
  if w.isPrefixOf s then .ok (v, Rest.skip s w.length)
  else .error (Problem.at invalidValueText s)

/-- The message for a key that is already taken. -/
def duplicateKeyText (key : String) : String := "duplicate key `" ++ key ++ "`"

/-- The message for a dotted key that runs through a value that is not a
table. -/
def extendText (path : List String) (found : String) : String :=
  "dotted key `" ++ ".".intercalate path ++ "` attempted to extend non-table type (" ++ found ++ ")"

/-- The entry of a key among inline-table members. -/
def memberOf? (key : String) :
    List (String × Span × Value × Option Span) → Option (Span × Value × Option Span)
  | [] => none
  | (k, ks, v, vs) :: rest => if k = key then some (ks, v, vs) else memberOf? key rest

/-- Replaces the value of a member. -/
def replaceMember (key : String) (v : Value) (entries : List (String × Span × Value × Option Span)) :
    List (String × Span × Value × Option Span) :=
  entries.map fun e => if e.1 = key then (e.1, e.2.1, v, e.2.2.2) else e

/-- Puts a member under the dotted path `pre` (already walked: `done`) into
inline-table members. A table met on the path must have been made by dotted
keys alone. -/
def insertMember (done : List String) (key : KeyPart) (v : Value) (span : Span) :
    List KeyPart → List (String × Span × Value × Option Span) →
      Except String (List (String × Span × Value × Option Span))
  | [], entries =>
    if (memberOf? key.name entries).isSome then .error (duplicateKeyText key.name)
    else .ok (entries ++ [(key.name, key.span, v, some span)])
  | p :: rest, entries =>
    match memberOf? p.name entries with
    | none =>
      (insertMember (done ++ [p.name]) key v span rest []).map fun inner =>
        entries ++ [(p.name, p.span, .inline inner, none)]
    | some (_, .inline inner, vs) =>
      if vs.isSome then .error (duplicateKeyText p.name)
      else (insertMember (done ++ [p.name]) key v span rest inner).map fun inner' =>
        replaceMember p.name (.inline inner') entries
    | some (_, other, _) => .error (extendText (done ++ [p.name]) other.typeName)

/-- One member of an inline table as read: its key parts, value and the
value's span. -/
structure Member where
  path : List KeyPart
  value : Value
  span : Span

/-- Builds an inline table from its members in order. -/
def inlineOf (members : List Member) : Except String (List (String × Span × Value × Option Span)) :=
  members.foldlM (fun entries m =>
    match m.path.reverse with
    | [] => .ok entries
    | key :: pre => insertMember [] key m.value m.span pre.reverse entries) []

/-- The message for an array that does not close. -/
def arrayCloseText : String := "invalid array\nexpected `]`"

/-- The message for an inline table that does not close. -/
def inlineCloseText : String := "invalid inline table\nexpected `\x7d`"

/-- The message for a key not followed by `=`. -/
def keyValueSeparatorText : String := "expected `.`, `=`"

/-- A problem that ends any choice: reading may not go on elsewhere. -/
def Problem.firm (p : Problem) : Problem := { p with recoverable := false }

/-- Reads array items, from after the opening bracket or a comma, up to and
including the closing bracket. A value that does not start where an item
may stand leaves the closing bracket missing there. -/
def arrayItems (item : Reader Value) (acc : List Value) (s : List Char) : Step (List Value) s :=
  let w := betweenItems s
  match h : w.1 with
  | ']' :: cs => .ok (acc.reverse, w.drop1 h)
  | t =>
    match item t with
    | .error p => if p.recoverable then .error (Problem.at arrayCloseText t) else .error p
    | .ok (v, r) =>
      let w2 := betweenItems r.1
      match h2 : w2.1 with
      | ',' :: cs =>
        have lt : cs.length < s.length := by
          have := w2.tail_lt h2; have := r.2; have := w.2; rw [h] at *; omega
        (arrayItems item (v :: acc) cs).map fun (vs, q) => (vs, ⟨q.1, by have := q.2; omega⟩)
      | ']' :: cs =>
        have lt : cs.length < s.length := by
          have := w2.tail_lt h2; have := r.2; have := w.2; rw [h] at *; omega
        .ok ((v :: acc).reverse, ⟨cs, Nat.le_of_lt lt⟩)
      | other => .error (Problem.at arrayCloseText other)
termination_by s.length

/-- Reads one member of an inline table: a key, `=`, and a value, with
blank space around the value. -/
def inlineMember (item : Reader Value) (s : List Char) : Step Member s :=
  match key s with
  | .error p => .error p
  | .ok (path, k) =>
    match h : k.1 with
    | '=' :: cs =>
      let b := blank cs
      match item b.1 with
      | .error p => .error p.firm
      | .ok (v, r) =>
        let a := blank r.1
        .ok (⟨path, v, Span.between b.1 r.1⟩,
          ⟨a.1, by have := a.2; have := r.2; have := b.2; have := k.tail_lt h; omega⟩)
    | other => .error (Problem.at keyValueSeparatorText other)

/-- Reads inline-table members after a comma; a comma followed by no member
is left unread. -/
def moreMembers (item : Reader Value) (acc : List Member) (s : List Char) : Step (List Member) s :=
  match s with
  | ',' :: cs =>
    match inlineMember item cs with
    | .error p => if p.recoverable then .ok (acc.reverse, Rest.refl (',' :: cs)) else .error p
    | .ok (m, r) =>
      (moreMembers item (m :: acc) r.1).map fun (ms, q) =>
        (ms, ⟨q.1, by have := q.2; have := r.2; simp only [List.length_cons] at *; omega⟩)
  | other => .ok (acc.reverse, Rest.refl other)
termination_by s.length
decreasing_by have := r.2; simp only [List.length_cons] at *; omega

/-- Reads an inline table after its opening brace. Members are checked for
clashes once all are read, and the problem is then placed right after the
brace. -/
def inlineBody (item : Reader Value) (s : List Char) :
    Step (List (String × Span × Value × Option Span)) s :=
  let first : Step (List Member) s :=
    match inlineMember item s with
    | .error p => if p.recoverable then .ok ([], Rest.refl s) else .error p
    | .ok (m, r) => (moreMembers item [m] r.1).map fun (ms, q) => (ms, r.trans q)
  match first with
  | .error p => .error p
  | .ok (members, r) =>
    match inlineOf members with
    | .error message => .error (Problem.at message s)
    | .ok entries =>
      let b := blank r.1
      match h : b.1 with
      | '}' :: cs => .ok (entries, ⟨cs, by have := b.tail_lt h; have := r.2; omega⟩)
      | other => .error (Problem.at inlineCloseText other)

/-- The message when arrays and inline tables nest too deep. -/
def nestingText : String := "recursion limit exceeded"

/-- What is left after the tail of `s` is also left after `s`. -/
def Rest.ofTail {s : List Char} (r : Rest s.tail) : Rest s :=
  ⟨r.1, Nat.le_trans r.2 (by simp)⟩

/-- Reads a value. `depth` is how many arrays and inline tables may still
open. -/
def value : Nat → Reader Value
  | depth, s =>
    match s.head? with
    | some '"' | some '\'' => (string s).map fun (v, r) => (.str v, r)
    | some '[' =>
      match depth with
      | 0 => .error (Problem.at nestingText s)
      | d + 1 => (arrayItems (value d) [] s.tail).map fun (vs, r) => (.arr vs, Rest.ofTail r)
    | some '\x7b' =>
      match depth with
      | 0 => .error (Problem.at nestingText s)
      | d + 1 => (inlineBody (value d) s.tail).map fun (es, r) => (.inline es, Rest.ofTail r)
    | some 't' => word "true".toList (.bool true) s
    | some 'f' => word "false".toList (.bool false) s
    | some 'i' | some 'n' =>
      match numberOrDate s with
      | .ok r => .ok r
      | .error _ => .error (Problem.noStart invalidValueText s)
    | some '_' => .error (Problem.noStart "invalid integer\nexpected leading digit" s)
    | some '.' => .error (Problem.noStart "invalid floating-point number\nexpected leading digit" s)
    | some c =>
      if c = '+' || c = '-' || isDigit c then numberOrDate s
      else .error (Problem.noStart invalidValueText s)
    | none => .error (Problem.noStart "" s)

/-- How deep arrays and inline tables may nest. -/
def depthLimit : Nat := 79

end EntityGraph.Toml
