/-! Finding the graph data embedded in an HTML page. The page is searched,
ignoring ASCII case, for `<script`; the tag ends at the first `>` that is
not inside single or double quotes, and the script's body runs to the next
`</script` (or the end of the page). A script whose tag carries
`data-render-graph="true"` (or `'true'`, or `true` unquoted) holds graph
data. The search goes on after each body; a tag that never ends stops it. -/

namespace EntityGraph.Page

/-- The position of the first occurrence of a pattern in a list. -/
def findSub (pat : List Char) : List Char → Option Nat
  | [] => if pat.isEmpty then some 0 else none
  | c :: cs => if pat.isPrefixOf (c :: cs) then some 0 else (findSub pat cs).map (· + 1)

/-- The position of the `>` ending a tag, skipping quoted parts; `quote` is
the quote character of the part being read, if any. -/
def tagEnd (quote : Option Char) (i : Nat) : List Char → Option Nat
  | [] => none
  | c :: cs =>
    match quote with
    | none =>
      if c = '"' || c = '\'' then tagEnd (some c) (i + 1) cs
      else if c = '>' then some i
      else tagEnd none (i + 1) cs
    | some q => if c = q then tagEnd none (i + 1) cs else tagEnd (some q) (i + 1) cs

/-- The attribute texts that mark a script as holding graph data. -/
def markers : List (List Char) :=
  ["data-render-graph=\"true\"".toList, "data-render-graph='true'".toList,
   "data-render-graph=true".toList]

/-- A lower-cased tag marks its script as holding graph data. -/
def isGraphTag (tag : List Char) : Bool :=
  markers.any fun m => (findSub m tag).isSome

/-- The bodies of the graph scripts of a page, given the page and its
lower-cased copy (the two are read in step). -/
def scriptBodies (page lower : List Char) : List String :=
  match lower with
  | [] => []
  | c :: cs =>
    match findSub "<script".toList (c :: cs) with
    | none => []
    | some start =>
      match tagEnd none 0 ((c :: cs).drop start) with
      | none => []
      | some len =>
        let tag := ((c :: cs).drop start).take len
        let bodyStart := start + len + 1
        let afterTag := (c :: cs).drop bodyStart
        let bodyLen := (findSub "</script".toList afterTag).getD afterTag.length
        let next := bodyStart + bodyLen
        let found := if isGraphTag tag then [String.ofList ((page.drop bodyStart).take bodyLen)] else []
        found ++ scriptBodies (page.drop next) ((c :: cs).drop next)
termination_by lower.length
decreasing_by simp only [List.length_drop, List.length_cons]; omega

/-- The bodies of the graph scripts of an HTML page, in page order. -/
def graphScripts (html : String) : List String :=
  scriptBodies html.toList (html.toList.map Char.toLower)

end EntityGraph.Page
