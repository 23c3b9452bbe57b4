/-! Drawable graphs: nodes named by strings and edges between names, each
with a label and perhaps a shape and a color. A graph is closed when every
edge joins two of its nodes. -/

namespace EntityGraph

/-- The outline a node is drawn with. -/
inductive Shape where
  | ellipse
  | box
  deriving DecidableEq, Repr

/-- The name of a shape. -/
def Shape.name : Shape → String
  | .ellipse => "ellipse"
  | .box => "box"

/-- How a node or an edge is drawn. -/
structure Attributes where
  label : String
  shape : Option Shape := none
  color : Option String := none
  deriving DecidableEq, Repr

/-- A node of a graph. -/
structure Node where
  name : String
  attributes : Attributes
  deriving DecidableEq, Repr

/-- An edge from the node named `tail` to the one named `head`. -/
structure Edge where
  tail : String
  head : String
  attributes : Attributes
  deriving DecidableEq, Repr

/-- A graph: directed or not, with its nodes and edges in drawing order. -/
structure Graph where
  directed : Bool
  nodes : List Node
  edges : List Edge
  deriving DecidableEq, Repr

namespace Graph

/-- The first node with a name. -/
def node? (g : Graph) (name : String) : Option Node :=
  g.nodes.find? (·.name == name)

/-- The edges leaving a node, in order. -/
def edgesFrom (g : Graph) (name : String) : List Edge :=
  g.edges.filter (·.tail == name)

/-- Every edge joins two nodes of the graph. -/
def isClosed (g : Graph) : Bool :=
  let names := g.nodes.map (·.name)
  g.edges.all fun e => names.contains e.tail && names.contains e.head

theorem isClosed_iff (g : Graph) : g.isClosed = true ↔
    ∀ e ∈ g.edges, e.tail ∈ g.nodes.map (·.name) ∧ e.head ∈ g.nodes.map (·.name) := by
  simp only [isClosed, List.all_eq_true, Bool.and_eq_true, List.contains_iff_mem]

theorem node?_name {g : Graph} {name : String} {n : Node} (h : g.node? name = some n) :
    n ∈ g.nodes ∧ n.name = name := by
  have hm := List.mem_of_find?_eq_some h
  have hp := List.find?_some h
  exact ⟨hm, by simpa using hp⟩

theorem mem_edgesFrom {g : Graph} {name : String} {e : Edge} :
    e ∈ g.edgesFrom name ↔ e ∈ g.edges ∧ e.tail = name := by
  simp [edgesFrom]

end Graph

end EntityGraph
