import EntityGraph.Json.Basic
import EntityGraph.Decimal.Notation
/-! Compact JSON text: no whitespace, object members in key order, strings
with only the quote, the backslash and control characters escaped. -/

namespace EntityGraph

open Decimal

/-- The hexadecimal digit of a number below sixteen, in lower case. -/
def hexDigitLower (n : Nat) : Char :=
  if n < 10 then Char.ofNat (48 + n) else Char.ofNat (87 + n)

/-- The escape of one character inside a JSON string: the quote, the
backslash and the characters below U+0020 are escaped, `\b`, `\t`, `\n`,
`\f`, `\r` by their short forms and the others as `\u00xx`. -/
def jsonEscapeChar (c : Char) : List Char :=
  if c = '"' then ['\\', '"']
  else if c = '\\' then ['\\', '\\']
  else if c.toNat = 8 then ['\\', 'b']
  else if c = '\t' then ['\\', 't']
  else if c = '\n' then ['\\', 'n']
  else if c.toNat = 12 then ['\\', 'f']
  else if c = '\r' then ['\\', 'r']
  else if c.toNat < 32 then
    ['\\', 'u', '0', '0', hexDigitLower (c.toNat / 16), hexDigitLower (c.toNat % 16)]
  else [c]

/-- A string as a JSON string literal. -/
def jsonQuote (s : String) : String :=
  String.ofList ('"' :: (s.toList.flatMap jsonEscapeChar ++ ['"']))

namespace Number

/-- The JSON text of a number: integers in decimal, doubles in the JSON
layout. -/
def render : Number → String
  | .nat n => toString n.toNat
  | .neg n => toString n.toInt
  | .float x => Layout.json.renderFloat x

end Number

namespace Json

mutual

/-- The compact JSON text of a value. -/
def render : Json → String
  | .null => "null"
  | .bool b => if b then "true" else "false"
  | .num n => n.render
  | .str s => jsonQuote s
  | .arr items => "[" ++ renderItems items ++ "]"
  | .obj members => "\x7b" ++ renderMembers members ++ "\x7d"

/-- The items of an array, separated by commas. -/
def renderItems : List Json → String
  | [] => ""
  | [v] => render v
  | v :: rest => render v ++ "," ++ renderItems rest

/-- The members of an object, separated by commas. -/
def renderMembers : List (String × Json) → String
  | [] => ""
  | [(k, v)] => jsonQuote k ++ ":" ++ render v
  | (k, v) :: rest => jsonQuote k ++ ":" ++ render v ++ "," ++ renderMembers rest

end

end Json

end EntityGraph
