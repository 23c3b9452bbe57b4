/-! Which characters a diagnostic shows as they are, and the quoted form of
a string in a diagnostic: a character that does not print (a control
character, a format character, a combining mark) is written `\u{hex}`. -/

namespace EntityGraph.Text

/-- Code point ranges of characters that a diagnostic does not show as they
are: control and format characters, combining marks, private use and
noncharacters. -/
def hiddenRanges : List (Nat × Nat) :=
  [(0x0, 0x1F), (0x7F, 0x9F), (0xAD, 0xAD), (0x300, 0x36F), (0x483, 0x489),
   (0x591, 0x5BD), (0x600, 0x605), (0x61C, 0x61C), (0x6DD, 0x6DD), (0x70F, 0x70F),
   (0x180E, 0x180E), (0x200B, 0x200F), (0x2028, 0x202E), (0x2060, 0x206F),
   (0x20D0, 0x20F0), (0xD800, 0xF8FF), (0xFE00, 0xFE0F), (0xFE20, 0xFE2F),
   (0xFEFF, 0xFEFF), (0xFFF0, 0xFFFB), (0xFFFE, 0xFFFF), (0xE0000, 0xE0FFF),
   (0xF0000, 0x10FFFF)]

/-- A character a diagnostic writes as it is. -/
def isShown (c : Char) : Bool :=
  !hiddenRanges.any (fun (lo, hi) => lo ≤ c.toNat && c.toNat ≤ hi)

/-- The digits of a number in base sixteen, in lower case, without leading
zeros. -/
def hexLower (n : Nat) : String :=
  String.ofList (Nat.toDigits 16 n)

/-- One character inside a quoted diagnostic string. -/
def shownChar (c : Char) : String :=
  if c = '"' then "\\\""
  else if c = '\\' then "\\\\"
  else if c = '\n' then "\\n"
  else if c = '\r' then "\\r"
  else if c = '\t' then "\\t"
  else if c.toNat = 0 then "\\0"
  else if isShown c then c.toString
  else "\\u\x7b" ++ hexLower c.toNat ++ "\x7d"

/-- A string in double quotes as a diagnostic shows it. -/
def shownString (s : String) : String :=
  "\"" ++ String.join (s.toList.map shownChar) ++ "\""

end EntityGraph.Text
