import EntityGraph.Toml.Value
/-! A TOML document as the tables it defines. Lines hold a key and a value,
a table header `[a.b]`, an array-of-tables header `[[a.b]]`, a comment, or
nothing. The keys and values under a header are gathered into a table of
their own, which joins the document when the next header starts or the
text ends; a header may then only name a table that no header and no
dotted key has made yet, though it may fill in one that later headers'
paths made on the way. Dotted keys make tables of their own kind, which
only dotted keys may extend. -/

namespace EntityGraph.Toml

/-- How a table came to be: from its own header, on the way to a deeper
header, or from dotted keys. -/
inductive TableKind where
  | header
  | implicit
  | dotted
  deriving DecidableEq, Repr

/-- An item of a document: a value with its span, a table with its kind and
(for a header table) the header's span, or an array of tables. Each entry
of a table keeps its key's span. -/
inductive Item where
  | value (v : Value) (span : Span)
  | table (entries : List (String × Span × Item)) (kind : TableKind) (span : Option Span)
  | tables (list : List (List (String × Span × Item)))

/-- The entries of a table, in the order they joined it. -/
abbrev Entries := List (String × Span × Item)

/-- The key span and item of a key. -/
def Entries.find? (key : String) : Entries → Option (Span × Item)
  | [] => none
  | (k, ks, item) :: rest => if k = key then some (ks, item) else Entries.find? key rest

/-- Replaces the item of a key, keeping its place and key span. -/
def Entries.replace (key : String) (item : Item) (entries : Entries) : Entries :=
  entries.map fun e => if e.1 = key then (e.1, e.2.1, item) else e

/-- Removes a key. -/
def Entries.remove (key : String) (entries : Entries) : Entries :=
  entries.filter fun e => e.1 ≠ key

/-- Why a key may not be placed. -/
inductive Clash where
  /-- The key is taken; the path of the table holding it, when known. -/
  | duplicate (key : String) (table : Option (List String))
  /-- A dotted path runs through a value of the named type. -/
  | extend (path : List String) (found : String)
  deriving Repr

/-- The message for a clash. -/
def Clash.message : Clash → String
  | .duplicate key none => duplicateKeyText key
  | .duplicate key (some []) => duplicateKeyText key ++ " in document root"
  | .duplicate key (some path) => duplicateKeyText key ++ " in table `" ++ ".".intercalate path ++ "`"
  | .extend path found => extendText path found

/-- Walks `path` down from a table (`isDotted` tells whether dotted keys made
it), making the missing tables on the way, and runs `visit` on the table
reached with its dottedness; the tables walked are rebuilt around what
`visit` gives back. `dotted` tells whether the path is a dotted key, whose
tables only dotted keys may have made; `done` is the part already walked. -/
def descend (dotted : Bool) (visit : Bool → Entries → Except Clash (Entries × α))
    (done : List String) : List KeyPart → Bool → Entries → Except Clash (Entries × α)
  | [], isDotted, entries => visit isDotted entries
  | p :: rest, _, entries =>
    let walked := done ++ [p.name]
    match entries.find? p.name with
    | none =>
      let kind := if dotted then TableKind.dotted else TableKind.implicit
      (descend dotted visit walked rest dotted []).map fun (inner, a) =>
        (entries ++ [(p.name, p.span, .table inner kind none)], a)
    | some (_, .value v _) => .error (.extend walked v.typeName)
    | some (_, .tables list) =>
      (descend dotted visit walked rest false (list.getLastD [])).map fun (inner, a) =>
        (entries.replace p.name (.tables (list.dropLast ++ [inner])), a)
    | some (_, .table inner kind span) =>
      if dotted && kind = .header then .error (.duplicate p.name none)
      else
        (descend dotted visit walked rest (kind = .dotted) inner).map fun (inner', a) =>
          (entries.replace p.name (.table inner' kind span), a)

/-- The state of reading a document: the tables that have joined it, and
the table being filled under the last header. -/
structure Builder where
  root : Entries := []
  current : Entries := []
  /-- The last header's key parts; empty before the first header. -/
  path : List KeyPart := []
  isArray : Bool := false
  headerSpan : Option Span := none

/-- The names of key parts. -/
def KeyPart.names (parts : List KeyPart) : List String := parts.map (·.name)

/-- Places a key and value in the table being filled, under the dotted
prefix `pre`. -/
def Builder.keyValue (b : Builder) (pre : List KeyPart) (key : KeyPart) (v : Value) (span : Span) :
    Except Clash Builder :=
  let visit := fun (isDotted : Bool) (table : Entries) =>
    if isDotted = pre.isEmpty then Except.error (Clash.duplicate key.name none)
    else match table.find? key.name with
      | some _ => .error (.duplicate key.name (some (KeyPart.names b.path)))
      | none => .ok (table ++ [(key.name, key.span, Item.value v span)], ())
  (descend true visit [] pre false b.current).map fun (current, _) => { b with current }

/-- Lets the table being filled join the document. -/
def Builder.finish (b : Builder) : Except Clash Entries :=
  match b.path.reverse with
  | [] => .ok b.current
  | last :: initRev =>
    let init := initRev.reverse
    let clash := Clash.duplicate last.name (some (KeyPart.names init))
    let visit := fun (_ : Bool) (parent : Entries) =>
      match parent.find? last.name with
      | none =>
        let item := if b.isArray then Item.tables [b.current] else .table b.current .header b.headerSpan
        .ok (parent ++ [(last.name, last.span, item)], ())
      | some (_, .tables list) =>
        if b.isArray then .ok (parent.replace last.name (.tables (list ++ [b.current])), ())
        else .error clash
      | some (_, .table _ kind _) =>
        if !b.isArray && kind ≠ .header then
          .ok (parent.replace last.name (.table b.current .header b.headerSpan), ())
        else .error clash
      | some _ => .error clash
    (descend false visit [] init false b.root).map (·.1)

/-- Starts the table of a header `[path]` spanning `span`: the table
joins, once filled, where the path leads; one made on the way to an earlier
header is taken up again. -/
def Builder.openTable (b : Builder) (path : List KeyPart) (span : Span) : Except Clash Builder :=
  match b.finish with
  | .error c => .error c
  | .ok root =>
    match path.reverse with
    | [] => .ok { root }
    | last :: initRev =>
      let init := initRev.reverse
      let visit := fun (_ : Bool) (parent : Entries) =>
        match parent.find? last.name with
        | none => .ok (parent, [])
        | some (_, .table t .implicit _) => .ok (parent.remove last.name, t)
        | some _ => .error (Clash.duplicate last.name (some (KeyPart.names init)))
      (descend false visit [] init false root).map fun (root', current) =>
        { root := root', current, path, isArray := false, headerSpan := some span }

/-- Starts a table of an array-of-tables header `[[path]]`. -/
def Builder.openArrayTable (b : Builder) (path : List KeyPart) (span : Span) :
    Except Clash Builder :=
  match b.finish with
  | .error c => .error c
  | .ok root =>
    match path.reverse with
    | [] => .ok { root }
    | last :: initRev =>
      let init := initRev.reverse
      let visit := fun (_ : Bool) (parent : Entries) =>
        match parent.find? last.name with
        | none => .ok (parent ++ [(last.name, last.span, Item.tables [])], ())
        | some (_, .tables _) => .ok (parent, ())
        | some _ => .error (Clash.duplicate last.name (some (KeyPart.names init)))
      (descend false visit [] init false root).map fun (root', _) =>
        { root := root', current := [], path, isArray := true, headerSpan := some span }

/-- The message for a line that goes on after its content. -/
def lineEndText : String := "expected newline, `#`"

/-- The label of problems in a header. -/
def headerLabel : String := "invalid table header"

/-- Reads the end of a line after its content: blank space, an optional
comment, and a line end or the end of the text. -/
def lineTrailing (message : String) (s : List Char) : Except Problem (Rest s) :=
  let b := blank s
  let c : Rest s :=
    match h : b.1 with
    | '#' :: cs => ⟨(comment cs).1, by have := (comment cs).2; have := b.tail_lt h; omega⟩
    | _ => b
  match h2 : c.1 with
  | [] => .ok c
  | '\n' :: cs => .ok ⟨cs, Nat.le_of_lt (c.tail_lt h2)⟩
  | '\r' :: '\n' :: cs =>
    .ok ⟨cs, by have := c.2; rw [h2] at this; simp only [List.length_cons] at this; omega⟩
  | other => .error (Problem.at message other)

/-- Puts the header label before a problem's message. -/
def Problem.inHeader (p : Problem) : Problem := { p with message := headerLabel ++ "\n" ++ p.message }

/-- Reads a key-value line and places it. -/
def keyValueLine (b : Builder) (s : List Char) : Except Problem (Builder × Rest s) :=
  match key s with
  | .error p => .error p.firm
  | .ok (path, k) =>
    match h : k.1 with
    | '=' :: cs =>
      let w := blank cs
      match value depthLimit w.1 with
      | .error p => .error p.firm
      | .ok (v, r) =>
        match lineTrailing lineEndText r.1 with
        | .error p => .error p
        | .ok t =>
          match path.reverse with
          | [] => .ok (b, ⟨t.1, by have := t.2; have := r.2; have := w.2; have := k.tail_lt h; omega⟩)
          | last :: preRev =>
            match b.keyValue preRev.reverse last v (Span.between w.1 r.1) with
            | .error c => .error (Problem.at c.message s)
            | .ok b' => .ok (b', ⟨t.1, by have := t.2; have := r.2; have := w.2; have := k.tail_lt h; omega⟩)
    | other => .error (Problem.at keyValueSeparatorText other)

/-- Reads a header line, `[path]` or `[[path]]`, from its first bracket,
and starts its table. -/
def headerLine (b : Builder) (s : List Char) : Except Problem (Builder × Rest s) :=
  let isArray := match s with | '[' :: '[' :: _ => true | _ => false
  let opening := if isArray then 2 else 1
  let closing := if isArray then "]]".toList else "]".toList
  let afterOpening : Rest s := Rest.skip s opening
  match key afterOpening.1 with
  | .error p => .error p.firm
  | .ok (path, k) =>
    if closing.isPrefixOf k.1 then
      let closed : Rest s := ⟨k.1.drop closing.length, by
        have := k.2; have := afterOpening.2; simp only [List.length_drop]; omega⟩
      match lineTrailing lineEndText closed.1 with
      | .error p => .error p.inHeader
      | .ok t =>
        let span := Span.between s closed.1
        let opened := if isArray then b.openArrayTable path span else b.openTable path span
        match opened with
        | .error c => .error (Problem.at (headerLabel ++ "\n" ++ c.message) s)
        | .ok b' => .ok (b', ⟨t.1, by have := t.2; have := closed.2; omega⟩)
    else
      .error (Problem.at (headerLabel ++ "\nexpected `.`, `" ++ String.ofList closing ++ "`") k.1)

/-- Reads the lines of a document from the start of a line's content. -/
def lines (b : Builder) (s : List Char) : Except Problem Builder :=
  match s with
  | [] => .ok b
  | c :: cs =>
    let line : Except Problem (Builder × Rest (c :: cs)) :=
      if c = '#' then
        let r := comment cs
        match h : r.1 with
        | [] => .ok (b, Rest.cons c (r.trans (Rest.lift (Nat.le_of_eq (congrArg List.length h.symm)) (Rest.refl []))))
        | '\n' :: ds => .ok (b, Rest.cons c (r.trans (Rest.lift (Nat.le_of_eq (congrArg List.length h.symm)) (Rest.tail '\n' ds))))
        | '\r' :: '\n' :: ds =>
          .ok (b, Rest.cons c (r.trans (Rest.lift (Nat.le_of_eq (congrArg List.length h.symm)) (Rest.cons '\r' (Rest.tail '\n' ds)))))
        | other => .error (Problem.at "" other)
      else if c = '[' then headerLine b (c :: cs)
      else if c = '\n' then .ok (b, Rest.tail c cs)
      else if c = '\r' then
        match cs with
        | '\n' :: ds => .ok (b, Rest.cons c (Rest.tail '\n' ds))
        | _ => .error (Problem.at "" (c :: cs))
      else keyValueLine b (c :: cs)
    match line with
    | .error p => .error p
    | .ok (b', r) =>
      if _h : r.1.length < (c :: cs).length then lines b' (blank r.1).1
      else .ok b'
termination_by s.length
decreasing_by have := (blank r.1).2; omega

/-- The tables a document defines, or the first problem in it. -/
def Document.parse (text : List Char) : Except Problem Entries :=
  let start := match text with | '\uFEFF' :: rest => rest | other => other
  match lines {} (blank start).1 with
  | .error p => .error p
  | .ok b =>
    match b.finish with
    | .ok root => .ok root
    | .error c => .error ⟨c.message, none, [], false⟩

end EntityGraph.Toml
