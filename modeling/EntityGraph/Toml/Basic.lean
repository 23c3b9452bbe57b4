import EntityGraph.Text.Rest
/-! TOML values, the places of things in a TOML text, and the problems a
reader reports. Places are kept as the number of characters left after
them, so a reader working on the rest of a text can record them without
knowing the whole; `Place.offset` turns them into offsets. -/

namespace EntityGraph.Toml

/-- A stretch of a text, each end given by the number of characters left
after it. -/
structure Span where
  startLeft : Nat
  stopLeft : Nat
  deriving DecidableEq, Repr

/-- A TOML value. A date or time is kept as its text. An inline table keeps,
for each member, its key's span, its value and the value's span; a table
made only by dotted keys inside it has no span of its own. -/
inductive Value where
  | str (s : String)
  | int (n : Int)
  | float (x : Float)
  | bool (b : Bool)
  | datetime (text : String)
  | arr (items : List Value)
  | inline (entries : List (String × Span × Value × Option Span))

/-- The span from the text `s` to the text `r` left after it. -/
def Span.between (s r : List Char) : Span := ⟨s.length, r.length⟩

/-- The span of the character at the front of `s` (empty at the end). -/
def Span.at (s : List Char) : Span := ⟨s.length, s.length - 1⟩

/-- A problem found in a TOML text: its message, where (if known), and the
keys leading to the value it concerns. -/
structure Problem where
  message : String
  span : Option Span
  keys : List String := []
  /-- The text merely did not start a value here, so a list of values may
  end at this point instead. -/
  recoverable : Bool := false
  deriving Repr

/-- A problem at the character at the front of `s`. -/
def Problem.at (message : String) (s : List Char) : Problem := ⟨message, some (Span.at s), [], false⟩

/-- A problem at the front of `s` where a value merely does not start. -/
def Problem.noStart (message : String) (s : List Char) : Problem :=
  ⟨message, some (Span.at s), [], true⟩

/-- A problem over the stretch from `s` to `r`. -/
def Problem.over (message : String) (s r : List Char) : Problem :=
  ⟨message, some (Span.between s r), [], false⟩

/-- The result of reading from the front of `s`. -/
abbrev Step (α : Type) (s : List Char) := Except Problem (α × Rest s)

/-- A reader of one thing from the front of any text. -/
abbrev Reader (α : Type) := (s : List Char) → Step α s

/-- Reads on from where a step stopped. -/
def Step.next {s : List Char} (x : Step α s) (f : α → Reader β) : Step β s :=
  match x with
  | .error e => .error e
  | .ok (a, r) => (f a r.1).map fun (b, q) => (b, r.trans q)

end EntityGraph.Toml
