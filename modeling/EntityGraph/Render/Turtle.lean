import EntityGraph.Prefix.Map
import EntityGraph.Rdf.Triple
import EntityGraph.Json.Text
/-! Turtle text of statements. The prefix table takes the prefixes whose
alias is a valid prefix name; going from the last to the first, an alias
already taken gets `_1`, `_2`, ... appended. The table is written as
`@prefix` lines (then a blank line when there are any), followed by one
line per triple and per literal triple.

A term is a blank node label (`_:...`) as it is, else `alias:local` by the
longest prefix it starts with when the rest is a valid local name, else an
IRI reference in angle brackets with unsafe characters escaped as `\uXXXX`.
A literal without a tag is a bare number or boolean when it is one; other
values are quoted strings (non-strings as compact JSON); a tag with a colon
is a datatype written as a term, any other tag a language. -/

namespace EntityGraph.Turtle

/-- A valid prefix name: an ASCII letter, then ASCII letters, digits, `_`
and `-`. -/
def isPrefixName (s : String) : Bool :=
  match s.toList with
  | c :: cs => c.isAlpha && cs.all fun d => d.isAlphanum || d = '_' || d = '-'
  | [] => false

/-- A valid local name: ASCII letters, digits, `_` and `-`, not starting
with `-`; it may be empty. -/
def isLocalName (s : String) : Bool :=
  s.toList.head? != some '-' && s.toList.all fun d => d.isAlphanum || d = '_' || d = '-'

/-- The first free name among `base`, `base_1`, `base_2`, ...;
`taken.length + 1` tries always suffice. -/
def freeName (taken : List String) (base : String) : String :=
  if taken.contains base then seek (taken.length + 1) 1 else base
where
  seek : Nat → Nat → String
    | 0, k => base ++ "_" ++ toString k
    | fuel + 1, k =>
      let name := base ++ "_" ++ toString k
      if taken.contains name then seek fuel (k + 1) else name

/-- The prefix table of a prefix map: the usable entries in order, with
names made distinct from the last entry to the first. -/
def prefixTable (m : PrefixMap) : List (String × String) :=
  let usable := m.entries.filter fun e => isPrefixName e.2
  let step := fun (acc : List String × List (String × String)) (e : String × String) =>
    let name := freeName acc.1 e.2
    (name :: acc.1, (e.1, name) :: acc.2)
  (usable.reverse.foldl step ([], [])).2

/-- The hexadecimal digits of a number, in upper case, at least four. -/
def hex4Upper (n : Nat) : String :=
  let ds := (Nat.toDigits 16 n).map Char.toUpper
  String.ofList (List.replicate (4 - ds.length) '0' ++ ds)

/-- The characters an IRI reference may not hold as they are: control
characters, space and `< > " { } | ^` backquote and backslash. -/
def needsEscape (c : Char) : Bool :=
  c.toNat ≤ 0x20 || "<>\"\x7b\x7d|^`\\".toList.contains c

/-- An IRI in angle brackets, each character that needs it escaped as
`\uXXXX`. -/
def iriRef (iri : String) : String :=
  "<" ++ String.join (iri.toList.map fun c => if needsEscape c then "\\u" ++ hex4Upper c.toNat else c.toString) ++ ">"

/-- The longest prefix of the table an IRI starts with. -/
def lookup (table : List (String × String)) (uri : String) : Option (String × String) :=
  table.foldl (fun best e =>
    if PrefixMap.startsWith uri e.1 then
      match best with
      | some b => if b.1.length < e.1.length then some e else some b
      | none => some e
    else best) none

/-- The Turtle term of an IRI or blank node. -/
def term (table : List (String × String)) (uri : String) : String :=
  if PrefixMap.startsWith uri "_:" then uri
  else
    match lookup table uri with
    | some (p, name) =>
      let local_ := PrefixMap.dropChars uri p.length
      if isLocalName local_ then name ++ ":" ++ local_ else iriRef uri
    | none => iriRef uri

/-- A string as a Turtle quoted string. -/
def quoteString (s : String) : String :=
  let body := s.toList.flatMap fun c =>
    if c = '\\' then ['\\', '\\']
    else if c = '"' then ['\\', '"']
    else if c = '\n' then ['\\', 'n']
    else if c = '\r' then ['\\', 'r']
    else [c]
  "\"" ++ String.ofList body ++ "\""

/-- The Turtle form of a literal with its tag. -/
def literal (table : List (String × String)) (value : Json) (tag : Option String) : String :=
  let tag := tag.filter fun t => !t.isEmpty
  match value, tag with
  | .num n, none => n.render
  | .bool b, none => if b then "true" else "false"
  | _, _ =>
    let text := match value with
      | .str s => quoteString s
      | other => quoteString other.render
    match tag with
    | some t => if t.toList.contains ':' then text ++ "^^" ++ term table t else text ++ "@" ++ t
    | none => text

end EntityGraph.Turtle

namespace EntityGraph.Statements

/-- The Turtle text of statements with the prefixes of a map. -/
def toTurtle (d : Statements) (m : PrefixMap) : String :=
  let table := Turtle.prefixTable m
  let header := String.join (table.map fun (p, name) => "@prefix " ++ name ++ ": " ++ Turtle.iriRef p ++ " .\n")
  let gap := if table.isEmpty then "" else "\n"
  let links := d.triples.map fun t =>
    Turtle.term table t.subject ++ " " ++ Turtle.term table t.predicate ++ " " ++
      Turtle.term table t.object ++ " .\n"
  let literals := d.literals.map fun l =>
    Turtle.term table l.subject ++ " " ++ Turtle.term table l.predicate ++ " " ++
      Turtle.literal table l.literal l.tag ++ " .\n"
  header ++ gap ++ String.join links ++ String.join literals

end EntityGraph.Statements
