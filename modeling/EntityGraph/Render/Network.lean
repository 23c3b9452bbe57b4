import EntityGraph.Graph.Basic
import EntityGraph.Json.Basic
/-! A graph as the JSON a network-drawing widget takes: nodes with `id`,
`label`, `shape` (an ellipse when unset) and `color` when set; edges with
`from`, `to`, `label` and, in a directed graph, `arrows: "to"`. -/

namespace EntityGraph.Graph

/-- The widget form of a node. -/
def networkNode (n : Node) : Json :=
  Json.ofMembers ([("id", .str n.name), ("label", .str n.attributes.label),
    ("shape", .str (n.attributes.shape.getD .ellipse).name)] ++
    (match n.attributes.color with
      | some c => [("color", .str c)]
      | none => []))

/-- The widget form of an edge. -/
def networkEdge (directed : Bool) (e : Edge) : Json :=
  Json.ofMembers ([("from", .str e.tail), ("to", .str e.head), ("label", .str e.attributes.label)] ++
    (if directed then [("arrows", .str "to")] else []))

/-- The widget form of a graph. -/
def toNetwork (g : Graph) : Json :=
  Json.ofMembers [("nodes", .arr (g.nodes.map networkNode)),
    ("edges", .arr (g.edges.map (networkEdge g.directed)))]

end EntityGraph.Graph
