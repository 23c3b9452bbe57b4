import EntityGraph.Json.Read
/-! Passing over a value nobody asked for. Its form is checked but nothing
is built: strings may hold any `\u` escape, numbers are not range-checked,
and nesting is tracked on a stack of open brackets, so any depth passes.
Inside such a value a comma before a closing bracket is reported as a
missing value or key. -/

namespace EntityGraph.Json

/-- The fault for text ending inside an open bracket. -/
def eofInside (frame : Char) : Fault :=
  Fault.next (if frame = '[' then .eofWhileParsingList else .eofWhileParsingObject) []

/-- The bracket that closes an opening one. -/
def closing (frame : Char) : Char := if frame = '[' then ']' else '}'

mutual

/-- Passes over a value and then the rest of every bracket in `stack`
(innermost first). -/
def skipFrom (stack : List Char) (s : List Char) : Except Fault (Rest s) :=
  match blank s with
  | ⟨[], _⟩ => .error (Fault.next .eofWhileParsingValue [])
  | ⟨c :: cs, h⟩ =>
    let scalar (x : Except Fault (Rest cs)) : Except Fault (Rest s) :=
      match x with
      | .error f => .error f
      | .ok r => (skipClose stack r.1).map fun q => Rest.lift h (Rest.cons c (r.trans q))
    if c = 'n' then scalar (ident ['u', 'l', 'l'] cs)
    else if c = 't' then scalar (ident ['r', 'u', 'e'] cs)
    else if c = 'f' then scalar (ident ['a', 'l', 's', 'e'] cs)
    else if c = '-' then scalar (skipUnsigned cs)
    else if isDigit c then scalar (skipAfterDigit c cs)
    else if c = '"' then scalar (skipString cs)
    else if c = '[' || c = '{' then
      (skipOpened (c :: stack) c cs).map fun q => Rest.lift h (Rest.cons c q)
    else .error (Fault.next .expectedSomeValue (c :: cs))
termination_by (s.length, 1)
decreasing_by
  all_goals
    try have := r.2
    try have := k.2
    try clear scalar
    try simp only [List.length_cons] at *
    apply Prod.Lex.left
    omega

/-- Passes over what follows a value inside the bracket at the top of
`stack`: a comma and the next item, or the closing bracket and then the
rest of the enclosing ones. -/
def skipClose (stack : List Char) (s : List Char) : Except Fault (Rest s) :=
  match stack with
  | [] => .ok (Rest.refl s)
  | frame :: outer =>
    match blank s with
    | ⟨[], _⟩ => .error (eofInside frame)
    | ⟨c :: cs, h⟩ =>
      if c = ',' then
        (skipItem frame stack cs).map fun q => Rest.lift h (Rest.cons c q)
      else if c = closing frame then
        (skipClose outer cs).map fun q => Rest.lift h (Rest.cons c q)
      else
        .error (Fault.next (if frame = '[' then .expectedListCommaOrEnd
          else .expectedObjectCommaOrEnd) (c :: cs))
termination_by (s.length, 0)
decreasing_by
  all_goals
    try have := r.2
    try have := k.2
    try clear scalar
    try simp only [List.length_cons] at *
    apply Prod.Lex.left
    omega

/-- Passes over the next item inside a bracket: a value in an array, a key,
a colon and a value in an object. -/
def skipItem (frame : Char) (stack : List Char) (s : List Char) : Except Fault (Rest s) :=
  if frame = '[' then skipFrom stack s
  else
    match blank s with
    | ⟨'"' :: cs, h⟩ =>
      match skipString cs with
      | .error f => .error f
      | .ok r =>
        match colon r.1 with
        | .error f => .error f
        | .ok k => (skipFrom stack k.1).map fun q => Rest.lift h (Rest.cons '"' (r.trans (k.trans q)))
    | ⟨[], _⟩ => .error (Fault.next .eofWhileParsingObject [])
    | ⟨c :: cs, _⟩ => .error (Fault.next .keyMustBeAString (c :: cs))
termination_by (s.length, 2)
decreasing_by
  all_goals
    try have := r.2
    try have := k.2
    try clear scalar
    try simp only [List.length_cons] at *
    first
      | (apply Prod.Lex.left; omega)
      | (apply Prod.Lex.right' <;> omega)

/-- Passes over the inside of a bracket just opened (it is at the top of
`stack`): it may close at once. -/
def skipOpened (stack : List Char) (frame : Char) (s : List Char) : Except Fault (Rest s) :=
  match blank s with
  | ⟨[], _⟩ => .error (eofInside frame)
  | ⟨c :: cs, h⟩ =>
    if c = closing frame then
      (skipClose stack.tail cs).map fun q => Rest.lift h (Rest.cons c q)
    else (skipItem frame stack (c :: cs)).map fun q => Rest.lift h q
termination_by (s.length, 3)
decreasing_by
  all_goals
    try have := r.2
    try have := k.2
    try clear scalar
    try simp only [List.length_cons] at *
    first
      | (apply Prod.Lex.left; omega)
      | (apply Prod.Lex.right' <;> omega)

end

/-- Passes over one value of any depth, checking its form. -/
def skipValue (s : List Char) : Except Fault (Rest s) := skipFrom [] s

end EntityGraph.Json
