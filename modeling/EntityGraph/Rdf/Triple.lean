import EntityGraph.Json.Basic
import EntityGraph.Json.Text
/-! The statements a page describes its entity with: triples linking two
resources by a predicate, and literal triples giving a resource a JSON
value, perhaps with a language or datatype tag. As JSON, a triple is an
array of three strings and a literal triple an array of three items, or of
four when it has a tag. -/

namespace EntityGraph

/-- A statement linking a subject to an object by a predicate. -/
structure Triple where
  subject : String
  predicate : String
  object : String

/-- A statement giving a subject a literal value by a predicate. The tag is
a language (`en`) or, when it holds a colon, a datatype IRI. -/
structure LiteralTriple where
  subject : String
  predicate : String
  literal : Json
  tag : Option String

/-- The statements about an entity: links first, then literals. -/
structure Statements where
  triples : List Triple
  literals : List LiteralTriple

namespace Triple

/-- A triple as a JSON array. -/
def toJson (t : Triple) : Json :=
  .arr [.str t.subject, .str t.predicate, .str t.object]

end Triple

namespace LiteralTriple

/-- A literal triple as a JSON array, with the tag as a fourth item when
there is one. -/
def toJson (t : LiteralTriple) : Json :=
  match t.tag with
  | none => .arr [.str t.subject, .str t.predicate, t.literal]
  | some tag => .arr [.str t.subject, .str t.predicate, t.literal, .str tag]

end LiteralTriple

namespace Statements

/-- The statements as a JSON object with `triples` and `data` arrays. -/
def toJson (d : Statements) : Json :=
  .obj [("data", .arr (d.literals.map LiteralTriple.toJson)),
        ("triples", .arr (d.triples.map Triple.toJson))]

end Statements

end EntityGraph
