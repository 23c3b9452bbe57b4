import EntityGraph.Json.Basic
import EntityGraph.Json.Read
/-! Reading typed values out of a JSON value. A record is an object (its
known members are read in key order, unknown ones ignored, and then missing
fields are reported in the record's field order) or an array with one item
per field in field order (extra items are an error). The complaints name
what was found the way `Decode.Found` does. -/

namespace EntityGraph.Json

open Decode

/-- How a complaint names a value. -/
def found : Json → Found
  | .null => .unit
  | .bool b => .bool b
  | .num n => n.found
  | .str s => .str s
  | .arr _ => .seq
  | .obj _ => .map

/-- A string value. -/
def asString (v : Json) : Except Mismatch String :=
  match v with
  | .str s => .ok s
  | other => .error (.invalidType (found other) "a string")

/-- A boolean value. -/
def asBool (v : Json) : Except Mismatch Bool :=
  match v with
  | .bool b => .ok b
  | other => .error (.invalidType (found other) "a boolean")

/-- An unsigned 64-bit integer: a negative integer is out of range. -/
def asU64 (v : Json) : Except Mismatch UInt64 :=
  match v with
  | .num (.nat n) => .ok n
  | .num (.neg n) => .error (.invalidValue (.signed n.toInt) "u64")
  | other => .error (.invalidType (found other) "u64")

/-- An array of values of one kind. -/
def asList (item : Json → Except Mismatch α) (v : Json) : Except Mismatch (List α) :=
  match v with
  | .arr items => items.mapM item
  | other => .error (.invalidType (found other) "a sequence")

/-- An optional value: null is none. -/
def asOption (item : Json → Except Mismatch α) (v : Json) : Except Mismatch (Option α) :=
  match v with
  | .null => .ok none
  | other => (item other).map some

/-- Checks the known members of an object in key order. -/
def checkMembers (members : List (String × Json))
    (known : List (String × (Json → Except Mismatch Unit))) : Except Mismatch Unit :=
  members.forM fun (k, v) =>
    match known.lookup k with
    | some check => check v
    | none => .ok ()

/-- A field that must be present. -/
def requiredField (members : List (String × Json)) (name : String)
    (read : Json → Except Mismatch α) : Except Mismatch α :=
  match members.lookup name with
  | some v => read v
  | none => .error (.missingField name)

/-- A field that falls back to a default when absent. -/
def optionalField (members : List (String × Json)) (name : String) (default : α)
    (read : Json → Except Mismatch α) : Except Mismatch α :=
  match members.lookup name with
  | some v => read v
  | none => .ok default

/-- A check that a value reads. -/
def reads (read : Json → Except Mismatch α) (v : Json) : Except Mismatch Unit :=
  (read v).map fun _ => ()

/-- The item at `index` of a record written as an array; a shorter array is
the wrong length for `expected`. -/
def itemAt (items : List Json) (index : Nat) (expected : String)
    (read : Json → Except Mismatch α) : Except Mismatch α :=
  match items[index]? with
  | some v => read v
  | none => .error (.invalidLength index expected)

/-- The item at `index` of a record written as an array, or a default. -/
def itemOr (items : List Json) (index : Nat) (default : α)
    (read : Json → Except Mismatch α) : Except Mismatch α :=
  match items[index]? with
  | some v => read v
  | none => .ok default

/-- A record written as an array has no more items than fields. -/
def noExtraItems (items : List Json) (fields : Nat) : Except Mismatch Unit :=
  if items.length ≤ fields then .ok ()
  else .error (.invalidLength items.length "fewer elements in array")

end EntityGraph.Json
