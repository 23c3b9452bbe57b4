import Mathlib
import EntityGraph.Render.Dot

/-! # DOT text reads back

The writer quotes every name, label and color by three replacements in a
row: backslashes are doubled first, then double quotes and line feeds are
escaped. Doubling the backslashes first is what makes the three act on each
character alone (`replaceChar_escapes`): a later replacement never meets a
character an earlier one wrote. So a quoted string holds no raw double quote
and no raw line feed, and each backslash in it starts one of the escapes
`\\`, `\"` and `\n` (`Escaped`); undoing them (`readQuoted`) gives the
string back whatever follows the closing quote.

With no line feed inside any line, the text splits at its line feeds into
the header, one line per node and one per edge, the closing brace and an
empty last piece (`splitOn_toDot`). A node line and an edge line differ
after their first quoted name, so the lines read back as the graph's nodes
and edges (`readDot_toDot`), and two graphs with the same text are equal.
The main theorem is `toDot_reads_back`.
-/

namespace EntityGraph.Graph

/-! ## Quoting one character at a time -/

/-- How a character is written inside DOT quotes: backslash, double quote
and line feed as escapes, any other character as it is. -/
def dotEscape (c : Char) : List Char :=
  if c = '\\' then ['\\', '\\']
  else if c = '"' then ['\\', '"']
  else if c = '\n' then ['\\', 'n']
  else [c]

@[simp] theorem replaceChar_nil (c : Char) (r : List Char) : replaceChar [] c r = [] := rfl

@[simp] theorem replaceChar_cons (d : Char) (s : List Char) (c : Char) (r : List Char) :
    replaceChar (d :: s) c r = (if d = c then r else [d]) ++ replaceChar s c r := rfl

@[simp] theorem replaceChar_append (s t : List Char) (c : Char) (r : List Char) :
    replaceChar (s ++ t) c r = replaceChar s c r ++ replaceChar t c r :=
  List.flatMap_append

/-- Doubling the backslashes before escaping the double quotes and the line
feeds escapes each character on its own. -/
theorem replaceChar_escapes (s : List Char) :
    replaceChar (replaceChar (replaceChar s '\\' ['\\', '\\']) '"' ['\\', '"']) '\n' ['\\', 'n'] =
      s.flatMap dotEscape := by
  induction s with
  | nil => rfl
  | cons c s ih =>
    rw [List.flatMap_cons, ← ih]
    by_cases h1 : c = '\\'
    · subst h1
      simp [dotEscape]
    by_cases h2 : c = '"'
    · subst h2
      simp [dotEscape]
    by_cases h3 : c = '\n'
    · subst h3
      simp [dotEscape]
    simp [dotEscape, h1, h2, h3]

theorem toList_dotQuote (s : String) :
    (dotQuote s).toList = '"' :: s.toList.flatMap dotEscape ++ ['"'] := by
  simp [dotQuote, replaceChar_escapes]

/-! ## What a quoted string holds -/

/-- The text between the quotes of a DOT quoted string: no raw double quote
and no raw line feed, and every backslash starts one of the escapes `\\`,
`\"` and `\n`. -/
inductive Escaped : List Char → Prop
  | nil : Escaped []
  | plain {c : Char} {cs : List Char} : c ≠ '\\' → c ≠ '"' → c ≠ '\n' → Escaped cs →
      Escaped (c :: cs)
  | backslash {cs : List Char} : Escaped cs → Escaped ('\\' :: '\\' :: cs)
  | quote {cs : List Char} : Escaped cs → Escaped ('\\' :: '"' :: cs)
  | newline {cs : List Char} : Escaped cs → Escaped ('\\' :: 'n' :: cs)

theorem escaped_flatMap_dotEscape (s : List Char) : Escaped (s.flatMap dotEscape) := by
  induction s with
  | nil => exact .nil
  | cons c s ih =>
    rw [List.flatMap_cons]
    by_cases h1 : c = '\\'
    · subst h1
      exact .backslash ih
    by_cases h2 : c = '"'
    · subst h2
      exact .quote ih
    by_cases h3 : c = '\n'
    · subst h3
      exact .newline ih
    simpa [dotEscape, h1, h2, h3] using Escaped.plain h1 h2 h3 ih

theorem Escaped.newline_not_mem {cs : List Char} (h : Escaped cs) : '\n' ∉ cs := by
  induction h with
  | nil => simp
  | plain _ _ hc _ ih => simp [Ne.symm hc, ih]
  | backslash _ ih => simp [ih]
  | quote _ ih => simp [ih]
  | newline _ ih => simp [ih]

theorem newline_not_mem_dotQuote (s : String) : '\n' ∉ (dotQuote s).toList := by
  rw [toList_dotQuote]
  simpa using (escaped_flatMap_dotEscape s.toList).newline_not_mem

/-! ## Reading a quoted string -/

/-- Reads the rest of a DOT quoted string after its opening quote, undoing
the escapes: the string and the text after the closing quote. A raw line
feed, a backslash starting no escape or a missing closing quote is refused. -/
def readQuoted : List Char → Option (List Char × List Char)
  | '"' :: rest => some ([], rest)
  | '\\' :: '\\' :: rest => (readQuoted rest).map fun r => ('\\' :: r.1, r.2)
  | '\\' :: '"' :: rest => (readQuoted rest).map fun r => ('"' :: r.1, r.2)
  | '\\' :: 'n' :: rest => (readQuoted rest).map fun r => ('\n' :: r.1, r.2)
  | '\\' :: _ => none
  | '\n' :: _ => none
  | c :: rest => (readQuoted rest).map fun r => (c :: r.1, r.2)
  | [] => none

/-- Undoing the escapes gives the string back, whatever follows the closing
quote. -/
theorem readQuoted_dotEscape (s rest : List Char) :
    readQuoted (s.flatMap dotEscape ++ '"' :: rest) = some (s, rest) := by
  induction s with
  | nil => simp [readQuoted]
  | cons c s ih =>
    rw [List.flatMap_cons, List.append_assoc]
    by_cases h1 : c = '\\'
    · subst h1
      simp [dotEscape, readQuoted, ih]
    by_cases h2 : c = '"'
    · subst h2
      simp [dotEscape, readQuoted, ih]
    by_cases h3 : c = '\n'
    · subst h3
      simp [dotEscape, readQuoted, ih]
    simp [dotEscape, h1, h2, h3, readQuoted, ih]

/-! ## Attribute lists -/

/-- How a shape follows the label in an attribute list. -/
def shapeText : Option Shape → List Char
  | some sh => (", shape=" ++ sh.name).toList
  | none => []

/-- How a color follows the label and the shape in an attribute list. -/
def colorText : Option String → List Char
  | some c => (", color=" ++ dotQuote c).toList
  | none => []

theorem toList_dotAttributes (a : Attributes) :
    (dotAttributes a).toList =
      "label=".toList ++ (dotQuote a.label).toList ++ shapeText a.shape ++ colorText a.color := by
  obtain ⟨label, shape, color⟩ := a
  cases shape <;> cases color <;>
    simp [dotAttributes, shapeText, colorText]

/-- Reads the shape after the label of an attribute list. -/
def readShape (cs : List Char) : Option Shape × List Char :=
  match cs.dropPrefix? ", shape=ellipse".toList with
  | some r => (some .ellipse, r)
  | none =>
    match cs.dropPrefix? ", shape=box".toList with
    | some r => (some .box, r)
    | none => (none, cs)

/-- Reads the color after the label and the shape of an attribute list. -/
def readColor (cs : List Char) : Option (Option String × List Char) :=
  match cs.dropPrefix? ", color=\"".toList with
  | some r => (readQuoted r).map fun q => (some (String.ofList q.1), q.2)
  | none => some (none, cs)

/-- Reads an attribute list that ends its line: the label, perhaps a shape,
perhaps a color, then `];`. -/
def readAttributes (cs : List Char) : Option Attributes := do
  let r ← cs.dropPrefix? "label=\"".toList
  let (label, r) ← readQuoted r
  let (shape, r) := readShape r
  let (color, r) ← readColor r
  if r = "];".toList then some ⟨String.ofList label, shape, color⟩ else none

theorem readAttributes_dotAttributes (a : Attributes) :
    readAttributes ((dotAttributes a).toList ++ [']', ';']) = some a := by
  obtain ⟨label, shape, color⟩ := a
  rw [toList_dotAttributes]
  cases shape with
  | none => cases color <;> simp [shapeText, colorText, readAttributes, readShape, readColor,
      toList_dotQuote, List.dropPrefix?, readQuoted_dotEscape]
  | some sh => cases sh <;> cases color <;> simp [shapeText, colorText, Shape.name, readAttributes,
      readShape, readColor, toList_dotQuote, List.dropPrefix?, readQuoted_dotEscape]

/-! ## Node and edge lines -/

/-- Reads a node line: its quoted name, then its attribute list. -/
def readNodeLine (cs : List Char) : Option Node := do
  let r ← cs.dropPrefix? "  \"".toList
  let (name, r) ← readQuoted r
  let r ← r.dropPrefix? " [".toList
  let a ← readAttributes r
  pure ⟨String.ofList name, a⟩

/-- Reads an edge line with a given arrow: its quoted tail, the arrow, its
quoted head, then its attribute list. -/
def readEdgeLine (arrow : String) (cs : List Char) : Option Edge := do
  let r ← cs.dropPrefix? "  \"".toList
  let (tail, r) ← readQuoted r
  let r ← r.dropPrefix? (" " ++ arrow ++ " \"").toList
  let (head, r) ← readQuoted r
  let r ← r.dropPrefix? " [".toList
  let a ← readAttributes r
  pure ⟨String.ofList tail, String.ofList head, a⟩

theorem readNodeLine_dotNodeLine (n : Node) : readNodeLine (dotNodeLine n).toList = some n := by
  have hattrs := readAttributes_dotAttributes n.attributes
  simp [dotNodeLine, readNodeLine, toList_dotQuote, List.dropPrefix?, readQuoted_dotEscape, hattrs]

theorem readEdgeLine_dotEdgeLine (arrow : String) (e : Edge) :
    readEdgeLine arrow (dotEdgeLine arrow e).toList = some e := by
  have hattrs := readAttributes_dotAttributes e.attributes
  have harrow : ∀ rest, (arrow.toList ++ ' ' :: '"' :: rest).dropPrefix?
      (arrow.toList ++ [' ', '"']) = some rest := fun rest => by
    simpa using @List.dropPrefix?_append_of_beq Char _ (arrow.toList ++ [' ', '"'])
      (arrow.toList ++ [' ', '"']) rest (by simp)
  simp [dotEdgeLine, readEdgeLine, toList_dotQuote, List.dropPrefix?, readQuoted_dotEscape, hattrs,
    harrow]

/-- An edge line is no node line: after the first name comes the arrow, not
the attribute list. -/
theorem readNodeLine_dotEdgeLine (directed : Bool) (e : Edge) :
    readNodeLine (dotEdgeLine (if directed then "->" else "--") e).toList = none := by
  cases directed <;> simp [dotEdgeLine, readNodeLine, toList_dotQuote, List.dropPrefix?, readQuoted_dotEscape]

/-! ## Lines -/

/-- The lines of a graph's DOT text without their line feeds: the header, a
line per node, a line per edge, the closing brace, and the empty piece after
the last line feed. -/
def dotLines (g : Graph) : List String :=
  (if g.directed then "digraph \x7b" else "graph \x7b") :: g.nodes.map dotNodeLine ++
    g.edges.map (dotEdgeLine (if g.directed then "->" else "--")) ++ ["\x7d"] ++ [""]

/-- Lines joined by line feeds: each line but the last is followed by one. -/
theorem intercalate_append_singleton (ls : List (List Char)) (last : List Char) :
    ['\n'].intercalate (ls ++ [last]) = ls.flatMap (· ++ ['\n']) ++ last := by
  induction ls with
  | nil => simp
  | cons l ls ih =>
    rw [List.cons_append, List.intercalate_cons_of_ne_nil (by simp), ih]
    simp

theorem toList_toDot (g : Graph) : (toDot g).toList = ['\n'].intercalate ((dotLines g).map String.toList) := by
  rw [dotLines, List.map_append, List.map_singleton, intercalate_append_singleton]
  obtain ⟨directed, nodes, edges⟩ := g
  cases directed <;> simp [toDot, dotNode, dotEdge, List.flatMap_map, Function.comp_def]

theorem newline_not_mem_dotAttributes (a : Attributes) : '\n' ∉ (dotAttributes a).toList := by
  obtain ⟨label, shape, color⟩ := a
  rw [toList_dotAttributes]
  cases shape with
  | none => cases color <;> simp [shapeText, colorText, newline_not_mem_dotQuote]
  | some sh => cases sh <;> cases color <;> simp [shapeText, colorText, Shape.name, newline_not_mem_dotQuote]

/-- No line of the text holds a line feed. -/
theorem newline_not_mem_dotLines (g : Graph) : ∀ l ∈ dotLines g, '\n' ∉ l.toList := by
  intro l hl
  simp only [dotLines, List.mem_append, List.mem_cons, List.mem_map, List.not_mem_nil,
    or_false] at hl
  rcases hl with (((rfl | ⟨n, -, rfl⟩) | ⟨e, -, rfl⟩) | rfl) | rfl
  · cases g.directed <;> simp
  · simp [dotNodeLine, newline_not_mem_dotQuote, newline_not_mem_dotAttributes]
  · cases g.directed <;> simp [dotEdgeLine, newline_not_mem_dotQuote, newline_not_mem_dotAttributes]
  · simp
  · simp

/-- The text splits at its line feeds into its lines. -/
theorem splitOn_toDot (g : Graph) : (toDot g).toList.splitOn '\n' = (dotLines g).map String.toList := by
  rw [toList_toDot]
  refine List.splitOn_intercalate '\n' (fun l hl => ?_) (by simp [dotLines])
  obtain ⟨line, hline, rfl⟩ := List.mem_map.mp hl
  exact newline_not_mem_dotLines g line hline

/-! ## Reading the whole text -/

/-- Reads the lines between the header and the closing brace: node lines
while they read as nodes, then edge lines. -/
def readBody (arrow : String) : List (List Char) → Option (List Node × List Edge)
  | [] => some ([], [])
  | l :: ls =>
    match readNodeLine l with
    | some n => (readBody arrow ls).map fun b => (n :: b.1, b.2)
    | none => ((l :: ls).mapM (readEdgeLine arrow)).map fun es => ([], es)

/-- Reads a header line: whether the graph is directed. -/
def readHeader (l : List Char) : Option Bool :=
  if l = "digraph \x7b".toList then some true
  else if l = "graph \x7b".toList then some false
  else none

/-- Reads a graph back from its DOT text: the header, the node and edge
lines, then the closing brace ending the text. -/
def readDot (text : List Char) : Option Graph :=
  match text.splitOn '\n' with
  | header :: rest =>
    match readHeader header, rest.reverse with
    | some directed, [] :: close :: body =>
      if close = ['\x7d'] then
        (readBody (if directed then "->" else "--") body.reverse).map fun b => ⟨directed, b.1, b.2⟩
      else none
    | _, _ => none
  | [] => none

theorem mapM_readEdgeLine (arrow : String) (edges : List Edge) :
    (edges.map fun e => (dotEdgeLine arrow e).toList).mapM (readEdgeLine arrow) = some edges := by
  induction edges with
  | nil => rfl
  | cons e es ih => simp [readEdgeLine_dotEdgeLine, ih]

/-- The node lines and then the edge lines read back as the nodes and the
edges. -/
theorem readBody_lines (directed : Bool) (nodes : List Node) (edges : List Edge) :
    readBody (if directed then "->" else "--")
      (nodes.map (fun n => (dotNodeLine n).toList) ++
        edges.map (fun e => (dotEdgeLine (if directed then "->" else "--") e).toList)) =
      some (nodes, edges) := by
  induction nodes with
  | nil =>
    cases edges with
    | nil => rfl
    | cons e es =>
      -- the first edge line is no node line, so all the lines are read as edges
      have hedges := mapM_readEdgeLine (if directed then "->" else "--") (e :: es)
      rw [List.map_cons] at hedges
      simp [readBody, readNodeLine_dotEdgeLine, hedges]
  | cons n ns ih => simp [readBody, readNodeLine_dotNodeLine, ih]

theorem readHeader_dotLines (directed : Bool) :
    readHeader (if directed then "digraph \x7b" else "graph \x7b").toList = some directed := by
  cases directed <;> decide

/-- The text reads back as the graph: every node name, edge tail and head,
label, shape and color is recovered. -/
theorem readDot_toDot (g : Graph) : readDot (toDot g).toList = some g := by
  obtain ⟨directed, nodes, edges⟩ := g
  have hbody := readBody_lines directed nodes edges
  simp only [readDot, splitOn_toDot, dotLines, List.map_cons, List.map_append, List.map_map,
    Function.comp_def, List.map_nil, readHeader_dotLines, List.reverse_append, List.reverse_cons,
    List.reverse_nil, List.nil_append, List.cons_append]
  simp [hbody]

/-- Distinct graphs have distinct DOT texts. -/
theorem toDot_injective : Function.Injective toDot := by
  intro g₁ g₂ h
  have hread := readDot_toDot g₁
  rw [h, readDot_toDot] at hread
  exact (Option.some.inj hread).symm

/-! ## The DOT text of a graph -/

/-- The DOT text of any graph splits at its line feeds into the header, a
line per node and a line per edge in order, the closing brace and an empty
last piece. A quoted string holds no raw double quote and no raw line feed,
each of its backslashes starts an escape, and undoing them gives the string
back. The whole text reads back as the graph, so two graphs with the same
text are equal. -/
theorem toDot_reads_back :
    (∀ g : Graph, (toDot g).toList.splitOn '\n' =
      ((if g.directed then "digraph \x7b" else "graph \x7b") :: g.nodes.map dotNodeLine ++
        g.edges.map (dotEdgeLine (if g.directed then "->" else "--")) ++
        ["\x7d", ""]).map String.toList) ∧
    (∀ s : String, ∃ body, (dotQuote s).toList = '"' :: body ++ ['"'] ∧ Escaped body ∧
      ∀ rest, readQuoted (body ++ '"' :: rest) = some (s.toList, rest)) ∧
    (∀ g : Graph, readDot (toDot g).toList = some g) ∧
    Function.Injective toDot := by
  refine ⟨fun g => ?_, fun s => ?_, readDot_toDot, toDot_injective⟩
  · rw [splitOn_toDot, dotLines, List.append_assoc, List.singleton_append]
  · exact ⟨_, toList_dotQuote s, escaped_flatMap_dotEscape _, readQuoted_dotEscape _⟩

end EntityGraph.Graph
