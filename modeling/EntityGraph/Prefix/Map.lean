/-! Prefix maps: a list of IRI prefixes with a short alias each, in the
order they were added. An IRI is shortened with the longest prefix it
starts with, to `alias:rest`; a short name `alias:rest` is expanded with
the first prefix registered under its alias. -/

namespace EntityGraph

/-- IRI prefixes with their aliases, in the order they were added; no
prefix occurs twice and no alias is empty. -/
structure PrefixMap where
  entries : List (String × String)
  deriving Inhabited

namespace PrefixMap

/-- The map with no prefixes. -/
def empty : PrefixMap := ⟨[]⟩

/-- Registers a prefix under an alias. An empty alias is ignored; a prefix
already present keeps its place and takes the new alias. -/
def add (m : PrefixMap) (long short : String) : PrefixMap :=
  if short.isEmpty then m
  else if m.entries.any (fun e => e.1 == long) then
    ⟨m.entries.map fun e => if e.1 == long then (long, short) else e⟩
  else ⟨m.entries ++ [(long, short)]⟩

@[simp] theorem add_empty (m : PrefixMap) (long : String) : m.add long "" = m := by
  simp [add]

/-- A new prefix goes at the end. -/
theorem entries_add_of_absent (m : PrefixMap) (long short : String) (hs : short.isEmpty = false)
    (hl : m.entries.any (fun e => e.1 == long) = false) :
    (m.add long short).entries = m.entries ++ [(long, short)] := by
  simp [add, hs, hl]

/-- Whether a string starts with another. -/
def startsWith (s pre : String) : Bool := pre.toList.isPrefixOf s.toList

/-- The longest registered prefix that an IRI starts with. -/
def prefixOf? (m : PrefixMap) (uri : String) : Option String :=
  (m.entries.map (·.1)).foldl
    (fun best p =>
      if startsWith uri p then
        match best with
        | some b => if b.length < p.length then some p else some b
        | none => some p
      else best)
    none

/-- The alias of a registered prefix. -/
def aliasOf? (m : PrefixMap) (long : String) : Option String :=
  (m.entries.find? (·.1 == long)).map (·.2)

/-- The part of a string after its first `n` characters. -/
def dropChars (s : String) (n : Nat) : String := String.ofList (s.toList.drop n)

/-- An IRI as `alias:rest` by the longest prefix it starts with, or the IRI
itself when none fits. -/
def shorten (m : PrefixMap) (uri : String) : String :=
  match m.prefixOf? uri with
  | none => uri
  | some p =>
    match m.aliasOf? p with
    | some a => a ++ ":" ++ dropChars uri p.length
    | none => uri

/-- A string split at its first colon. -/
def splitColon? (s : String) : Option (String × String) :=
  let cs := s.toList
  let before := cs.takeWhile (· != ':')
  if before.length = cs.length then none
  else some (String.ofList before, String.ofList (cs.drop (before.length + 1)))

/-- The IRI a short name `alias:rest` stands for: the first prefix
registered under the alias, followed by the rest. -/
def expand? (m : PrefixMap) (short : String) : Option String :=
  match splitColon? short with
  | none => none
  | some (a, rest) => (m.entries.find? (·.2 == a)).map fun e => e.1 ++ rest

/-- The number of registered prefixes. -/
def size (m : PrefixMap) : Nat := m.entries.length

end PrefixMap

end EntityGraph
