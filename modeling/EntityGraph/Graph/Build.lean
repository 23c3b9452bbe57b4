import EntityGraph.Graph.Basic
import EntityGraph.Prefix.Generate
import EntityGraph.Rdf.Triple
import EntityGraph.Rdf.Vocabulary
import EntityGraph.Json.Text
import EntityGraph.Text.Wrap
/-! Drawing statements as a graph. Every subject and object of a triple,
then every subject of a literal triple, is a node (once, in order of first
mention), labelled with its short name. Each triple is an edge labelled
with its predicate's short name. Each literal triple adds a box node named
`_:n` (the least `n` above the last one whose name is not already a node),
labelled with the literal's text cut into lines, and an edge to it.

Short names come from a prefix map generated from the predicates and then
the nodes, with `rdf` always registered for the RDF namespace. -/

namespace EntityGraph

/-- How literal nodes are labelled: with their tag, or the bare value. -/
inductive LiteralStyle where
  | annotated
  | plain
  deriving DecidableEq, Repr

/-- The name of a literal style. -/
def LiteralStyle.name : LiteralStyle → String
  | .annotated => "annotated"
  | .plain => "plain"

/-- The literal style of a name. -/
def LiteralStyle.ofName? : String → Option LiteralStyle
  | "annotated" => some .annotated
  | "plain" => some .plain
  | _ => none

/-- The choices that shape a drawing. -/
structure DrawSettings where
  separators : String := "/#"
  maxAliasLen : Nat := 30
  wrapWidth : Nat := 30
  literalStyle : LiteralStyle := .annotated
  deriving Repr

/-- The text of a literal: a string as it is, any other value as compact
JSON. In the annotated style a nonempty tag is added: a datatype (a tag
with a colon) as `"text"^^short-name`, a language as `"text"@tag`. -/
def renderLiteral (literal : Json) (tag : Option String) (style : LiteralStyle)
    (m : PrefixMap) : String :=
  let text := match literal with
    | .str s => s
    | other => other.render
  match style, tag with
  | .annotated, some t =>
    if t.isEmpty then text
    else if t.toList.contains ':' then "\"" ++ text ++ "\"^^" ++ m.shorten t
    else "\"" ++ text ++ "\"@" ++ t
  | _, _ => text

/-- The items of a list without repeats, each where it first occurs. -/
def distinct (xs : List String) : List String :=
  xs.foldl (fun acc x => if acc.contains x then acc else acc ++ [x]) []

/-- The name of the literal node numbered `n`. -/
def literalId (n : Nat) : String := "_:" ++ toString n

/-- The least number from `start` on whose literal node name is not among
`used`; `used.length + 1` tries always suffice. -/
def freshLiteralNumber (used : List String) (start : Nat) : Nat :=
  seek (used.length + 1) start
where
  seek : Nat → Nat → Nat
    | 0, k => k
    | fuel + 1, k => if used.contains (literalId k) then seek fuel (k + 1) else k

/-- A graph and the prefix map its labels were shortened with. -/
structure Drawing where
  graph : Graph
  prefixes : PrefixMap

/-- The nodes that statements mention, in order of first mention. -/
def Statements.resources (d : Statements) : List String :=
  distinct (d.triples.flatMap (fun t => [t.subject, t.object]) ++ d.literals.map (·.subject))

/-- The IRIs prefixes are chosen for: predicates, then nodes. -/
def Statements.namedIris (d : Statements) : List String :=
  distinct (d.triples.map (·.predicate) ++ d.literals.map (·.predicate) ++ d.resources)

/-- The prefix map statements are drawn with. -/
def Statements.prefixes (s : DrawSettings) (d : Statements) : PrefixMap :=
  (PrefixMap.generate d.namedIris s.separators s.maxAliasLen).add Rdf.rdfNamespace "rdf"

/-- The node of a resource: an ellipse labelled with its short name. -/
def resourceNode (m : PrefixMap) (uri : String) : Node :=
  { name := uri, attributes := { label := m.shorten uri, shape := some .ellipse } }

/-- The edge of a triple, labelled with its predicate's short name. -/
def linkEdge (m : PrefixMap) (t : Triple) : Edge :=
  { tail := t.subject, head := t.object, attributes := { label := m.shorten t.predicate } }

/-- The box node of a literal triple numbered `n`: an orange box named
`_:n`, labelled with the literal's text cut into lines. -/
def literalNode (s : DrawSettings) (m : PrefixMap) (l : LiteralTriple) (n : Nat) : Node :=
  { name := literalId n,
    attributes := { label := Text.wrap (renderLiteral l.literal l.tag s.literalStyle m) s.wrapWidth,
                    shape := some .box, color := some "orange" } }

/-- The edge from a literal triple's subject to its box node numbered `n`,
labelled with the predicate's short name. -/
def literalEdge (m : PrefixMap) (l : LiteralTriple) (n : Nat) : Edge :=
  { tail := l.subject, head := literalId n, attributes := { label := m.shorten l.predicate } }

/-- Draws one more literal triple: it takes the next number whose name is
not a resource, and adds its box node and the edge to it. The state is the
last number taken and the literal nodes and edges drawn so far. -/
def addLiteral (s : DrawSettings) (m : PrefixMap) (resources : List String)
    (acc : Nat × List Node × List Edge) (l : LiteralTriple) : Nat × List Node × List Edge :=
  let (last, nodes, edges) := acc
  let n := freshLiteralNumber resources (last + 1)
  (n, nodes ++ [literalNode s m l n], edges ++ [literalEdge m l n])

/-- Draws statements as a graph. -/
def Statements.draw (s : DrawSettings) (d : Statements) : Drawing :=
  let m := d.prefixes s
  let resources := d.resources
  let resourceNodes := resources.map (resourceNode m)
  let linkEdges := d.triples.map (linkEdge m)
  let (_, literalNodes, literalEdges) := d.literals.foldl (addLiteral s m resources) (0, [], [])
  { graph := { directed := true, nodes := resourceNodes ++ literalNodes, edges := linkEdges ++ literalEdges },
    prefixes := m }

end EntityGraph
