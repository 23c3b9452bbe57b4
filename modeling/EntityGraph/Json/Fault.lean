import EntityGraph.Decode.Mismatch
import EntityGraph.Text.Bytes
/-! Why reading JSON text failed, and where. A place is a byte offset into
the text, reported as a line (counted from one) and a column (the bytes
before the offset on its line). A complaint about a value's shape is raised
without a place and placed by the reader of the enclosing value, at the
point where that reader stopped. -/

namespace EntityGraph.Json

open Decode

/-- A way JSON text can be malformed. -/
inductive Malformed where
  | eofWhileParsingList
  | eofWhileParsingObject
  | eofWhileParsingString
  | eofWhileParsingValue
  | expectedColon
  | expectedListCommaOrEnd
  | expectedObjectCommaOrEnd
  | expectedSomeIdent
  | expectedSomeValue
  | invalidEscape
  | invalidNumber
  | numberOutOfRange
  | controlCharacterWhileParsingString
  | keyMustBeAString
  | loneLeadingSurrogateInHexEscape
  | trailingComma
  | trailingCharacters
  | unexpectedEndOfHexEscape
  | recursionLimitExceeded

/-- The text of a malformation. -/
def Malformed.message : Malformed → String
  | .eofWhileParsingList => "EOF while parsing a list"
  | .eofWhileParsingObject => "EOF while parsing an object"
  | .eofWhileParsingString => "EOF while parsing a string"
  | .eofWhileParsingValue => "EOF while parsing a value"
  | .expectedColon => "expected `:`"
  | .expectedListCommaOrEnd => "expected `,` or `]`"
  | .expectedObjectCommaOrEnd => "expected `,` or `\x7d`"
  | .expectedSomeIdent => "expected ident"
  | .expectedSomeValue => "expected value"
  | .invalidEscape => "invalid escape"
  | .invalidNumber => "invalid number"
  | .numberOutOfRange => "number out of range"
  | .controlCharacterWhileParsingString =>
    "control character (\\u0000-\\u001F) found while parsing a string"
  | .keyMustBeAString => "key must be a string"
  | .loneLeadingSurrogateInHexEscape => "lone leading surrogate in hex escape"
  | .trailingComma => "trailing comma"
  | .trailingCharacters => "trailing characters"
  | .unexpectedEndOfHexEscape => "unexpected end of hex escape"
  | .recursionLimitExceeded => "recursion limit exceeded"

/-- A problem with the text: malformed, or a value of the wrong shape. -/
inductive Problem where
  | malformed (m : Malformed)
  | mismatch (m : Mismatch)

/-- The text of a problem. -/
def Problem.message : Problem → String
  | .malformed m => m.message
  | .mismatch m => m.message Spelling.json

/-- A place in the text: `ahead` bytes after the start of the text `rest`
that was left (the offset never passes the end of the text). -/
structure Place where
  rest : List Char
  ahead : Nat

/-- A failure to read: a placed problem, or a complaint raised when reading
had got to the text `stop`, which the enclosing reader will place. -/
inductive Fault where
  | placed (problem : Problem) (place : Place)
  | loose (m : Mismatch) (stop : List Char)

namespace Fault

/-- A malformation at the start of the text left. -/
def here (m : Malformed) (rest : List Char) : Fault := .placed (.malformed m) ⟨rest, 0⟩

/-- A malformation reported one byte into the text left: where the
character looked at but not taken ends, for an ASCII one. -/
def next (m : Malformed) (rest : List Char) : Fault := .placed (.malformed m) ⟨rest, 1⟩

/-- A complaint about a value placed at the start of the text left. -/
def wrong (m : Mismatch) (rest : List Char) : Fault := .placed (.mismatch m) ⟨rest, 0⟩

end Fault

/-- Line (from one) and column (bytes before, on that line) of a byte
offset into some bytes. -/
def lineColumn (bytes : List UInt8) (offset : Nat) : Nat × Nat :=
  let before := bytes.take offset
  let lines := before.count 10
  let lineStart := before.length - (before.reverse.takeWhile (· != 10)).length
  (lines + 1, offset - lineStart)

/-- The byte offset a place stands for in a text. -/
def Place.offset (p : Place) (text : List Char) : Nat :=
  let total := Text.utf8Length text
  min total (total - Text.utf8Length p.rest + p.ahead)

/-- The text of a failure to read `text`, with its line and column when it
has a place. -/
def Fault.message (text : List Char) : Fault → String
  | .placed problem place =>
    let (line, column) := lineColumn (String.ofList text).toUTF8.toList (place.offset text)
    problem.message ++ " at line " ++ toString line ++ " column " ++ toString column
  | .loose m _ => m.message Spelling.json

end EntityGraph.Json
