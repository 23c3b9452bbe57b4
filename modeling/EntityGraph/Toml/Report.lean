import EntityGraph.Toml.Basic
import EntityGraph.Text.Bytes
/-! The text of a problem in a TOML document: the line and column where it
is, that line of the document, and a row of carets under the stretch it
concerns, then the message. Lines and columns are counted from one.
Columns count characters, except where the stretch starts at a character
of several bytes: there the column is the number of bytes before it on its
line. The carets cover the stretch's bytes, at least one and at most to the
end of the line. A problem found while reading covers one byte. -/

namespace EntityGraph.Toml

/-- Whether a byte starts a character. -/
def startsChar (b : UInt8) : Bool := b < 0x80 || b ≥ 0xC0

/-- The line and column (both from zero) of a byte offset in a document. -/
def linePosition (bytes : List UInt8) (index : Nat) : Nat × Nat :=
  if bytes.isEmpty then (0, index)
  else
    let safe := min index (bytes.length - 1)
    let past := index - safe
    let before := bytes.take safe
    let lineStart := before.length - (before.reverse.takeWhile (· != 10)).length
    let line := (bytes.take lineStart).count 10
    let whole := match bytes[safe + 1]? with
      | some b => startsChar b
      | none => true
    let column :=
      if whole then (((bytes.drop lineStart).take (safe + 1 - lineStart)).filter startsChar).length - 1
      else safe - lineStart
    (line, column + past)

/-- A run of a character. -/
def runOf (c : Char) (n : Nat) : String := String.ofList (List.replicate n c)

/-- The text of a problem in the document `text`. `point` tells that the
problem was found while reading, so that it covers one byte. -/
def Problem.render (text : String) (point : Bool) (p : Problem) : String :=
  match p.span with
  | none =>
    p.message ++ "\n" ++ (if p.keys.isEmpty then "" else "in `" ++ ".".intercalate p.keys ++ "`\n")
  | some span =>
    let chars := text.toList
    let n := chars.length
    let bytes := text.toUTF8.toList
    let start := Text.utf8Length (chars.take (n - span.startLeft))
    let stop :=
      if point then (if start = bytes.length then start else start + 1)
      else Text.utf8Length (chars.take (n - span.stopLeft))
    let (line, column) := linePosition bytes start
    let lineNumber := toString (line + 1)
    let content := (text.splitOn "\n").getD line ""
    let width := min (stop - start) (max (content.utf8ByteSize - column) 1)
    let gutter := runOf ' ' (lineNumber.length + 1)
    "TOML parse error at line " ++ lineNumber ++ ", column " ++ toString (column + 1) ++ "\n" ++
      gutter ++ "|\n" ++
      lineNumber ++ " | " ++ content ++ "\n" ++
      gutter ++ "|" ++ runOf ' ' (column + 1) ++ runOf '^' (max width 1) ++ "\n" ++
      p.message ++ "\n"

end EntityGraph.Toml
