import EntityGraph.Prefix.Map
/-! Choosing prefixes and aliases for a set of IRIs. The candidate prefix
of an IRI runs up to and including its last separator character. The
candidates are merged in order into a list where no prefix starts with
another: a candidate removes the listed prefixes that start with it, and is
left out when a listed prefix is already a prefix of it.

The alias of a prefix is the first word of it after any `scheme://` (words
are runs of ASCII letters and digits) that is not `www`, or `prefix` when
there is none, cut to the maximal length and lower-cased. The first prefix
with a given alias keeps it; later ones get `_1`, `_2`, ... appended. -/

namespace EntityGraph.PrefixMap

/-- The candidate prefix of an IRI: up to and including its last separator
character, if it has one. -/
def candidate (separators : List Char) (uri : String) : Option String :=
  let kept := (uri.toList.reverse.dropWhile (fun c => !separators.contains c)).reverse
  if kept.isEmpty then none else some (String.ofList kept)

/-- Merges a candidate into a list of prefixes none of which starts with
another. -/
def mergeCandidate (prefixes : List String) (p : String) : List String :=
  if prefixes.contains p then prefixes
  else
    let kept := prefixes.filter fun old => !startsWith old p
    if kept.any fun old => startsWith p old then kept else kept ++ [p]

/-- The prefixes chosen for some IRIs, in the order they were first
suggested. -/
def choosePrefixes (separators : List Char) (uris : List String) : List String :=
  uris.foldl (fun acc uri =>
    match candidate separators uri with
    | some p => mergeCandidate acc p
    | none => acc) []

/-- The words of a text: the runs of ASCII letters and digits. -/
def words (cs : List Char) : List (List Char) :=
  (cs.splitOnP fun c => !c.isAlphanum).filter fun w => !w.isEmpty

/-- The text after the first `://`, if there is one. -/
def afterScheme? : List Char → Option (List Char)
  | ':' :: '/' :: '/' :: rest => some rest
  | _ :: rest => afterScheme? rest
  | [] => none

/-- The alias a prefix suggests: its first word after any scheme that is
not `www` (else `prefix`), cut to `maxLen` characters, in lower case. -/
def aliasBase (maxLen : Nat) (long : String) : String :=
  let name := (afterScheme? long.toList).getD long.toList
  let word := ((words name).find? fun w => w != "www".toList).getD "prefix".toList
  String.ofList ((word.take maxLen).map Char.toLower)

/-- One suggested alias numbered: the aliases given so far grow by one,
and each name seen so far keeps the number its next repeat gets. -/
def numberStep (acc : List String × List (String × Nat)) (base : String) :
    List String × List (String × Nat) :=
  let (out, seen) := acc
  match seen.lookup base with
  | some k =>
    (out ++ [base ++ "_" ++ toString k],
      seen.map fun e => if e.1 == base then (base, k + 1) else e)
  | none => (out ++ [base], seen ++ [(base, 1)])

/-- Makes suggested aliases distinct: the first one of a name keeps it,
the later ones get `_1`, `_2`, ... appended. -/
def numberAliases (bases : List String) : List String :=
  (bases.foldl numberStep ([], [])).1

/-- The prefix map generated for some IRIs: the chosen prefixes in order,
each under its numbered alias (an empty alias leaves its prefix out). -/
def generate (uris : List String) (separators : String) (maxLen : Nat) : PrefixMap :=
  let prefixes := choosePrefixes separators.toList uris
  let aliases := numberAliases (prefixes.map (aliasBase maxLen))
  (prefixes.zip aliases).foldl (fun m (p, a) => m.add p a) empty

end EntityGraph.PrefixMap
