import EntityGraph.Json.Skip
/-! A whole JSON text holds one value with only blank space around it. -/

namespace EntityGraph.Json

/-- Reads a whole text as one value: anything but blank space after the
value is an error. -/
def readWhole (read : Reader α) (text : List Char) : Except Fault α :=
  match read text with
  | .error f => .error f.settle
  | .ok (v, r) =>
    match blank r.1 with
    | ⟨[], _⟩ => .ok v
    | ⟨c :: cs, _⟩ => .error (Fault.next .trailingCharacters (c :: cs))

/-- Reads a whole text with a reader that takes a depth budget, reporting
a failure by its message. -/
def readText (read : Nat → Reader α) (text : String) : Except String α :=
  (readWhole (read depthBudget) text.toList).mapError (Fault.message text.toList)

/-- The value a JSON text holds, or the message saying why it holds none. -/
def parse (text : String) : Except String Json := readText readValue text

end EntityGraph.Json
