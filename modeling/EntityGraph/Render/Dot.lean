import EntityGraph.Graph.Basic
/-! Graphviz DOT text of a graph: a `digraph` (edges `->`) or a `graph`
(edges `--`) with one line per node and then one per edge, each with its
attribute list. Names and labels are quoted, with backslash, double quote
and line feed escaped. -/

namespace EntityGraph.Graph

/-- The characters of a text with every occurrence of one character
replaced by a text, as `str::replace` does. -/
def replaceChar (s : List Char) (c : Char) (r : List Char) : List Char :=
  s.flatMap fun d => if d = c then r else [d]

/-- A string as a DOT quoted string: backslashes doubled first, then double
quotes and line feeds escaped. -/
def dotQuote (s : String) : String :=
  let body := replaceChar (replaceChar (replaceChar s.toList '\\' ['\\', '\\']) '"' ['\\', '"'])
    '\n' ['\\', 'n']
  "\"" ++ String.ofList body ++ "\""

/-- The attribute list of a node or edge: the label, then the shape and the
color when set. -/
def dotAttributes (a : Attributes) : String :=
  let parts := ["label=" ++ dotQuote a.label] ++
    (match a.shape with
      | some sh => ["shape=" ++ sh.name]
      | none => []) ++
    (match a.color with
      | some c => ["color=" ++ dotQuote c]
      | none => [])
  ", ".intercalate parts

/-- The DOT line of a node, without its line feed. -/
def dotNodeLine (n : Node) : String :=
  "  " ++ dotQuote n.name ++ " [" ++ dotAttributes n.attributes ++ "];"

/-- The DOT line of a node. -/
def dotNode (n : Node) : String := dotNodeLine n ++ "\n"

/-- The DOT line of an edge, with the arrow of the graph's kind, without its
line feed. -/
def dotEdgeLine (arrow : String) (e : Edge) : String :=
  "  " ++ dotQuote e.tail ++ " " ++ arrow ++ " " ++ dotQuote e.head ++ " [" ++
    dotAttributes e.attributes ++ "];"

/-- The DOT line of an edge. -/
def dotEdge (arrow : String) (e : Edge) : String := dotEdgeLine arrow e ++ "\n"

/-- The DOT text of a graph. -/
def toDot (g : Graph) : String :=
  let header := if g.directed then "digraph \x7b\n" else "graph \x7b\n"
  let arrow := if g.directed then "->" else "--"
  header ++ String.join (g.nodes.map dotNode) ++ String.join (g.edges.map (dotEdge arrow)) ++ "\x7d\n"

end EntityGraph.Graph
