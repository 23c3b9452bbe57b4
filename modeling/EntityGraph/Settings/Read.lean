import EntityGraph.Settings.Basic
import EntityGraph.Toml.Document
import EntityGraph.Toml.Report
import EntityGraph.Decode.Mismatch
/-! Reading settings from a TOML document. Each key of the document's top
table names a setting, in the order the keys appear; an unknown key, or a
value of the wrong type, stops the reading with a complaint placed on the
key or the value. Counts are non-negative integers. The literal style is
its name as a string, or a table whose one key is the name and whose value
is empty. -/

namespace EntityGraph

open Toml Decode

/-- The span of an item, when it has one of its own. -/
def Toml.Item.span? : Item → Option Span
  | .value _ s => some s
  | .table _ _ s => s
  | .tables _ => none

/-- How a complaint names an item when it wanted another type. -/
def Toml.Item.found : Item → Found
  | .value (.str s) _ => .str s
  | .value (.int n) _ => .signed n
  | .value (.float x) _ => .float x
  | .value (.bool b) _ => .bool b
  | .value (.datetime _) _ => .map
  | .value (.arr _) _ => .seq
  | .value (.inline _) _ => .map
  | .table .. => .map
  | .tables _ => .seq

/-- A complaint about a setting, with its place when known. -/
structure Complaint where
  text : String
  span : Option Span

/-- A complaint about a mismatch. -/
def Complaint.of (m : Mismatch) (span : Option Span) : Complaint :=
  ⟨m.message Spelling.toml, span⟩

/-- Gives a complaint with no place the place `span`. -/
def Complaint.within (span : Option Span) (c : Complaint) : Complaint :=
  match c.span with
  | some _ => c
  | none => { c with span }

/-- Reads a string setting. -/
def readText (item : Item) : Except Complaint String :=
  match item with
  | .value (.str s) _ => .ok s
  | other => .error (.of (.invalidType other.found "a string") none)

/-- Reads a count setting of the named unsigned type. -/
def readCount (typeName : String) (item : Item) : Except Complaint Nat :=
  match item with
  | .value (.int n) _ =>
    if n ≥ 0 then .ok n.toNat else .error (.of (.invalidValue (.signed n) typeName) none)
  | other => .error (.of (.invalidType other.found typeName) none)

/-- The names of the literal styles. -/
def styleNames : List String := ["annotated", "plain"]

/-- The literal style a name stands for. -/
def styleNamed (name : String) (span : Option Span) : Except Complaint LiteralStyle :=
  match LiteralStyle.ofName? name with
  | some style => .ok style
  | none => .error (.of (.unknownVariant name styleNames) span)

/-- Checks that the value under a style's name is empty. -/
def emptyValue (item : Item) : Except Complaint Unit :=
  match item with
  | .tables [] => .ok ()
  | .tables _ => .error ⟨"expected empty array", none⟩
  | .value (.arr []) _ => .ok ()
  | .value (.arr _) s => .error ⟨"expected empty array", some s⟩
  | .table [] _ _ => .ok ()
  | .table _ _ s => .error ⟨"expected empty table", s⟩
  | .value (.inline []) _ => .ok ()
  | .value (.inline _) s => .error ⟨"expected empty table", some s⟩
  | .value v s => .error ⟨"expected table, found " ++ v.typeName, some s⟩

/-- Reads the literal style setting. -/
def readStyle (item : Item) : Except Complaint LiteralStyle :=
  let chosen : Except Complaint LiteralStyle :=
    match item with
    | .value (.str s) _ => styleNamed s none
    | .value (.inline []) s => .error ⟨"wanted exactly 1 element, found 0 elements", some s⟩
    | .value (.inline [(name, ks, v, vs)]) _ =>
      match styleNamed name (some ks) with
      | .error c => .error c
      | .ok style =>
        let inner : Item := match v, vs with
          | v, some s => .value v s
          | .inline es, none => .table (es.map fun (k, ks', v', _) => (k, ks', .value v' ks')) .dotted none
          | v, none => .value v ks
        (emptyValue inner).map fun _ => style
    | .value (.inline _) s => .error ⟨"wanted exactly 1 element, more than 1 element", some s⟩
    | .table [] _ s => .error ⟨"expected table with exactly 1 entry, found empty table", s⟩
    | .table ((name, ks, v) :: _) _ _ =>
      match styleNamed name (some ks) with
      | .error c => .error c
      | .ok style => (emptyValue v).map fun _ => style
    | other => .error ⟨"wanted string or table", other.span?⟩
  chosen.mapError (Complaint.within item.span?)

/-- Sets the named setting from an item. -/
def Settings.set (s : Settings) (name : String) (item : Item) : Except Complaint Settings :=
  if name = "separators" then (readText item).map fun v => { s with separators := v }
  else if name = "max_alias_len" then (readCount "usize" item).map fun v => { s with maxAliasLen := v }
  else if name = "wrap_width" then (readCount "usize" item).map fun v => { s with wrapWidth := v }
  else if name = "literal_style" then (readStyle item).map fun v => { s with literalStyle := v }
  else if name = "poll_interval_ms" then
    (readCount "u64" item).map fun v => { s with pollIntervalMs := v }
  else (readText item).map fun v => { s with progressEndpoint := v }

/-- Reads the settings from the top table of a document. -/
def Settings.ofEntries (entries : Entries) : Except Complaint Settings :=
  entries.foldlM (fun s (name, keySpan, item) =>
    if Settings.names.contains name then
      (s.set name item).mapError (Complaint.within (item.span?.orElse fun _ => some keySpan))
    else .error (.of (.unknownField name Settings.names) (some keySpan))) {}

/-- Reads settings from a TOML text, or gives the text of what is wrong. -/
def Settings.ofToml (text : String) : Except String Settings :=
  match Document.parse text.toList with
  | .error p => .error (p.render text true)
  | .ok entries =>
    match Settings.ofEntries entries with
    | .ok s => .ok s
    | .error c => .error (Problem.render text false ⟨c.text, c.span, [], false⟩)

end EntityGraph
