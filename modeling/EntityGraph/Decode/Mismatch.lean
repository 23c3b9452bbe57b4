import EntityGraph.Decimal.Notation
import EntityGraph.Text.Printable
/-! What a typed reader reports when a value does not have the shape it
wants: a value of another kind, a value out of range, a sequence of the
wrong length, a name it does not know, a field missing or given twice.
The wording is shared by the JSON and the TOML readers; they differ only in
how they spell a null and a double (`Spelling`). -/

namespace EntityGraph.Decode

open Decimal

/-- The value a reader found. -/
inductive Found where
  | bool (b : Bool)
  | unsigned (n : Nat)
  | signed (n : Int)
  | float (x : Float)
  | str (s : String)
  | unit
  | seq
  | map

/-- A reader's complaint about a value. -/
inductive Mismatch where
  | invalidType (found : Found) (expected : String)
  | invalidValue (found : Found) (expected : String)
  | invalidLength (length : Nat) (expected : String)
  | unknownVariant (name : String) (expected : List String)
  | unknownField (name : String) (expected : List String)
  | missingField (name : String)
  | duplicateField (name : String)
  | custom (text : String)

/-- How a format spells a null and a double in its complaints. -/
structure Spelling where
  unit : String
  float : Layout

/-- JSON complaints call a null `null` and write doubles as JSON does. -/
def Spelling.json : Spelling := ⟨"null", Layout.json⟩

/-- TOML complaints call a missing value a `unit value` and write doubles
positionally. -/
def Spelling.toml : Spelling := ⟨"unit value", Layout.positional⟩

/-- A name between backticks. -/
def ticked (s : String) : String := "`" ++ s ++ "`"

/-- How a complaint names the value found. -/
def Found.describe (sp : Spelling) : Found → String
  | .bool b => "boolean " ++ ticked (if b then "true" else "false")
  | .unsigned n => "integer " ++ ticked (toString n)
  | .signed n => "integer " ++ ticked (toString n)
  | .float x => "floating point " ++ ticked (sp.float.renderFloat x)
  | .str s => "string " ++ Text.shownString s
  | .unit => sp.unit
  | .seq => "sequence"
  | .map => "map"

/-- A list of names as a complaint lists the ones it would accept. -/
def oneOf : List String → String
  | [] => ""
  | [a] => ticked a
  | [a, b] => ticked a ++ " or " ++ ticked b
  | names => "one of " ++ ", ".intercalate (names.map ticked)

/-- The text of a complaint. -/
def Mismatch.message (sp : Spelling) : Mismatch → String
  | .invalidType f e => "invalid type: " ++ f.describe sp ++ ", expected " ++ e
  | .invalidValue f e => "invalid value: " ++ f.describe sp ++ ", expected " ++ e
  | .invalidLength n e => "invalid length " ++ toString n ++ ", expected " ++ e
  | .unknownVariant v [] => "unknown variant " ++ ticked v ++ ", there are no variants"
  | .unknownVariant v names => "unknown variant " ++ ticked v ++ ", expected " ++ oneOf names
  | .unknownField f [] => "unknown field " ++ ticked f ++ ", there are no fields"
  | .unknownField f names => "unknown field " ++ ticked f ++ ", expected " ++ oneOf names
  | .missingField f => "missing field " ++ ticked f
  | .duplicateField f => "duplicate field " ++ ticked f
  | .custom text => text

end EntityGraph.Decode
