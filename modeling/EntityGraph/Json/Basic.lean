/-! JSON values as graph data carries them. A number keeps the kind it was
read with: an integer that fits in 64 bits stays exact, anything else is a
double. An object keeps its members sorted by key, one member per key, so
two objects with the same members are the same value. -/

namespace EntityGraph

/-- A JSON number: a non-negative integer below 2^64, a negative integer
not below -2^63, or any other number as a finite double. -/
inductive Number where
  | nat (n : UInt64)
  | neg (n : Int64)
  | float (x : Float)

/-- A JSON value. The members of an object are sorted by key and no key
occurs twice; `Json.insert` keeps that order. -/
inductive Json where
  | null
  | bool (b : Bool)
  | num (n : Number)
  | str (s : String)
  | arr (items : List Json)
  | obj (members : List (String × Json))

namespace Json

/-- Puts a member into a sorted member list; a member already under the key
is replaced, so of two members with one key the later one stays. -/
def insertMember (key : String) (v : Json) : List (String × Json) → List (String × Json)
  | [] => [(key, v)]
  | (k, w) :: rest =>
    if key < k then (key, v) :: (k, w) :: rest
    else if key = k then (key, v) :: rest
    else (k, w) :: insertMember key v rest

/-- The object with the given members, later members winning over earlier
members of the same key. -/
def ofMembers (members : List (String × Json)) : Json :=
  .obj (members.foldl (fun acc (k, v) => insertMember k v acc) [])

/-- The member of an object under a key; `none` for a missing key or a value
that is not an object. -/
def get? (v : Json) (key : String) : Option Json :=
  match v with
  | .obj members => members.lookup key
  | _ => none

/-- A JSON string value. -/
def ofString (s : String) : Json := .str s

/-- A non-negative integer value. -/
def ofNat (n : Nat) : Json := .num (.nat n.toUInt64)

end Json

end EntityGraph
