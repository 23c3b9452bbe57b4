import EntityGraph.Json.Fields
import EntityGraph.Json.Document
import EntityGraph.Json.Typed
import EntityGraph.Rdf.Triple
/-! Reading statements from JSON text. The text is an object with optional
`triples` and `data` arrays (other members are passed over), or an array
holding those two arrays in that order. A triple is an array of exactly
three strings. A literal triple is read as any JSON value first, and is
then an array of two strings, a value and a tag that is a string or null,
or of two strings and a value; anything else is refused as a whole, the
refusal placed after the array of literal triples is closed.

Statements are also read from a JSON value, with the same shapes
(`Statements.ofJson`), and so from text by way of any reader of values
(`Statements.ofJsonTextWith`). -/

namespace EntityGraph.Rdf

open Json Decode

/-- What a triple is expected to be. -/
def tripleShape : String := "a tuple of size 3"

/-- Reads the three strings of a triple after its opening bracket. -/
def tripleItems : Reader Triple := fun s =>
  (requiredItem true 0 tripleShape readString s).next fun a =>
  fun s1 => (requiredItem false 1 tripleShape readString s1).next fun b =>
  fun s2 => (requiredItem false 2 tripleShape readString s2).next fun c =>
  fun s3 => .ok (⟨a, b, c⟩, Rest.refl s3)

/-- Reads a triple. -/
def readTriple (depth : Nat) : Reader Triple :=
  readBracketed depth tripleShape (some fun _ => tripleItems) none

/-- A literal triple from a JSON value: two strings, a value and a tag
(a string, or null for none), or two strings and a value. -/
def literalTripleOf? : Json → Option LiteralTriple
  | .arr [.str s, .str p, v, .null] => some ⟨s, p, v, none⟩
  | .arr [.str s, .str p, v, .str t] => some ⟨s, p, v, some t⟩
  | .arr [.str s, .str p, v] => some ⟨s, p, v, none⟩
  | _ => none

/-- The refusal of a value that is no literal triple. -/
def literalRefusal : String := "data did not match any variant of untagged enum RawDataTriple"

/-- Reads a literal triple. -/
def readLiteralTriple (depth : Nat) : Reader LiteralTriple := fun s =>
  (readValue depth s).next fun v r =>
    match literalTripleOf? v with
    | some t => .ok (t, Rest.refl r)
    | none => .error (.loose (.custom literalRefusal) r)

/-- Statements as an array: the triples, then the literal triples, each
array optional. -/
def statementItems (depth : Nat) : Reader Statements := fun s =>
  (optionalItem true [] (readSeqOf readTriple depth) s).next fun ts =>
  fun s1 => (optionalItem false [] (readSeqOf readLiteralTriple depth) s1).next fun ls =>
  fun s2 => .ok (⟨ts, ls⟩, Rest.refl s2)

/-- Reads a member of statements as an object: `triples` and `data` at most
once each, other members passed over. -/
def statementMember (depth : Nat) :
    MemberReader (Option (List Triple) × Option (List LiteralTriple)) :=
  fun (ts, ls) key =>
    if key = "triples" then fun t =>
      (fieldOnce "triples" ts (readSeqOf readTriple depth) t).map fun (v, q) => ((some v, ls), q)
    else if key = "data" then fun t =>
      (fieldOnce "data" ls (readSeqOf readLiteralTriple depth) t).map fun (v, q) => ((ts, some v), q)
    else skipMember (ts, ls)

/-- Statements as an object: `triples` and `data` at most once each. -/
def statementMembers (depth : Nat) : Reader Statements := fun s =>
  (members (statementMember depth) (none, none) s).map fun ((ts, ls), q) =>
    (⟨ts.getD [], ls.getD []⟩, q)

/-- Reads statements. -/
def readStatements (depth : Nat) : Reader Statements :=
  readBracketed depth "struct GraphData" (some statementItems) (some statementMembers)

end EntityGraph.Rdf

namespace EntityGraph.Statements

/-- The statements a whole JSON text holds, or the message saying why it
holds none. -/
def ofJsonText (text : String) : Except String Statements :=
  Json.readText Rdf.readStatements text

end EntityGraph.Statements

namespace EntityGraph

open Json Decode

/-- A triple from a JSON value: an array of exactly three strings. -/
def Triple.ofJson (v : Json) : Except Mismatch Triple :=
  match v with
  | .arr items => do
    let subject ← itemAt items 0 Rdf.tripleShape asString
    let predicate ← itemAt items 1 Rdf.tripleShape asString
    let object ← itemAt items 2 Rdf.tripleShape asString
    noExtraItems items 3
    pure ⟨subject, predicate, object⟩
  | other => .error (.invalidType (found other) Rdf.tripleShape)

def LiteralTriple.ofJson (v : Json) : Except Mismatch LiteralTriple :=
  match Rdf.literalTripleOf? v with
  | some t => .ok t
  | none => .error (.custom Rdf.literalRefusal)

/-- Statements from a JSON value: an object whose `triples` and `data`
members are optional (others are ignored), or an array of those two in that
order. -/
def Statements.ofJson (v : Json) : Except Mismatch Statements :=
  match v with
  | .obj ms => do
    checkMembers ms [("data", reads (asList LiteralTriple.ofJson)),
      ("triples", reads (asList Triple.ofJson))]
    let triples ← optionalField ms "triples" [] (asList Triple.ofJson)
    let literals ← optionalField ms "data" [] (asList LiteralTriple.ofJson)
    pure ⟨triples, literals⟩
  | .arr items => do
    let triples ← itemOr items 0 [] (asList Triple.ofJson)
    let literals ← itemOr items 1 [] (asList LiteralTriple.ofJson)
    noExtraItems items 2
    pure ⟨triples, literals⟩
  | other => .error (.invalidType (found other) "struct GraphData")

/-- The statements of a JSON text by way of its value: `read` takes the
value from the text, and the value is read as statements. -/
def Statements.ofJsonTextWith (read : String → Except String Json) (text : String) :
    Except String Statements :=
  (read text).bind fun v => (Statements.ofJson v).mapError (Mismatch.message Spelling.json)

end EntityGraph
