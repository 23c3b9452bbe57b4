import EntityGraph.Graph.Basic
import EntityGraph.Json.Typed
/-! Graphs as JSON. A graph is `{"directed", "nodes", "edges"}`, a node
`{"name", "attributes"}`, an edge `{"tail", "head", "attributes"}` and the
attributes `{"label", "shape"?, "color"?}` with unset ones left out. Read
back, every field is required except the shape and the color; a shape is
`"ellipse"` or `"box"` (or a one-member object naming one with a null
value), and null leaves it unset. -/

namespace EntityGraph

open Decode Json

namespace Attributes

/-- Attributes as JSON, unset ones left out. -/
def toJson (a : Attributes) : Json :=
  Json.ofMembers ([("label", .str a.label)] ++
    (match a.shape with
      | some s => [("shape", .str s.name)]
      | none => []) ++
    (match a.color with
      | some c => [("color", .str c)]
      | none => []))

end Attributes

/-- Reads a shape by its name. -/
def Shape.ofName (name : String) : Except Mismatch Shape :=
  if name = "ellipse" then .ok .ellipse
  else if name = "box" then .ok .box
  else .error (.unknownVariant name ["ellipse", "box"])

/-- Reads a shape: its name, or an object with its name as the only key
and null as the value. -/
def Shape.ofJson (v : Json) : Except Mismatch Shape :=
  match v with
  | .str name => Shape.ofName name
  | .obj [(name, value)] => do
    let s ← Shape.ofName name
    match value with
    | .null => pure s
    | other => throw (.invalidType (found other) "unit")
  | .obj _ => .error (.invalidValue .map "map with a single key")
  | other => .error (.invalidType (found other) "string or map")

namespace Attributes

/-- What attributes are expected to be. -/
def shapeText : String := "struct Attributes"

/-- Reads attributes. -/
def ofJson (v : Json) : Except Mismatch Attributes :=
  match v with
  | .obj ms => do
    checkMembers ms [("color", reads (asOption asString)), ("label", reads asString),
      ("shape", reads (asOption Shape.ofJson))]
    let label ← requiredField ms "label" asString
    let shape ← optionalField ms "shape" none (asOption Shape.ofJson)
    let color ← optionalField ms "color" none (asOption asString)
    pure { label, shape, color }
  | .arr items => do
    let label ← itemAt items 0 (shapeText ++ " with 3 elements") asString
    let shape ← itemOr items 1 none (asOption Shape.ofJson)
    let color ← itemOr items 2 none (asOption asString)
    noExtraItems items 3
    pure { label, shape, color }
  | other => .error (.invalidType (found other) shapeText)

end Attributes

namespace Node

/-- A node as JSON. -/
def toJson (n : Node) : Json :=
  Json.ofMembers [("name", .str n.name), ("attributes", n.attributes.toJson)]

/-- Reads a node. -/
def ofJson (v : Json) : Except Mismatch Node :=
  match v with
  | .obj ms => do
    checkMembers ms [("attributes", reads Attributes.ofJson), ("name", reads asString)]
    let name ← requiredField ms "name" asString
    let attributes ← requiredField ms "attributes" Attributes.ofJson
    pure { name, attributes }
  | .arr items => do
    let name ← itemAt items 0 "struct Node with 2 elements" asString
    let attributes ← itemAt items 1 "struct Node with 2 elements" Attributes.ofJson
    noExtraItems items 2
    pure { name, attributes }
  | other => .error (.invalidType (found other) "struct Node")

end Node

namespace Edge

/-- An edge as JSON. -/
def toJson (e : Edge) : Json :=
  Json.ofMembers [("tail", .str e.tail), ("head", .str e.head), ("attributes", e.attributes.toJson)]

/-- Reads an edge. -/
def ofJson (v : Json) : Except Mismatch Edge :=
  match v with
  | .obj ms => do
    checkMembers ms [("attributes", reads Attributes.ofJson), ("head", reads asString),
      ("tail", reads asString)]
    let tail ← requiredField ms "tail" asString
    let head ← requiredField ms "head" asString
    let attributes ← requiredField ms "attributes" Attributes.ofJson
    pure { tail, head, attributes }
  | .arr items => do
    let tail ← itemAt items 0 "struct Edge with 3 elements" asString
    let head ← itemAt items 1 "struct Edge with 3 elements" asString
    let attributes ← itemAt items 2 "struct Edge with 3 elements" Attributes.ofJson
    noExtraItems items 3
    pure { tail, head, attributes }
  | other => .error (.invalidType (found other) "struct Edge")

end Edge

namespace Graph

/-- A graph as JSON. -/
def toJson (g : Graph) : Json :=
  Json.ofMembers [("directed", .bool g.directed), ("nodes", .arr (g.nodes.map Node.toJson)),
    ("edges", .arr (g.edges.map Edge.toJson))]

/-- Reads a graph. -/
def ofJson (v : Json) : Except Mismatch Graph :=
  match v with
  | .obj ms => do
    checkMembers ms [("directed", reads asBool), ("edges", reads (asList Edge.ofJson)),
      ("nodes", reads (asList Node.ofJson))]
    let directed ← requiredField ms "directed" asBool
    let nodes ← requiredField ms "nodes" (asList Node.ofJson)
    let edges ← requiredField ms "edges" (asList Edge.ofJson)
    pure { directed, nodes, edges }
  | .arr items => do
    let directed ← itemAt items 0 "struct Graph with 3 elements" asBool
    let nodes ← itemAt items 1 "struct Graph with 3 elements" (asList Node.ofJson)
    let edges ← itemAt items 2 "struct Graph with 3 elements" (asList Edge.ofJson)
    noExtraItems items 3
    pure { directed, nodes, edges }
  | other => .error (.invalidType (found other) "struct Graph")

end Graph

end EntityGraph
