import EntityGraph.Json.Skip
/-! Readers for records written as JSON: an array with one item per field
in order, or an object with one member per field. In an array a missing
item is either an error (the array is too short) or the field's default;
items beyond the fields are an error. In an object a field given twice is
an error, and members that name no field are passed over. -/

namespace EntityGraph.Json

open Decode

/-- Reads on from where a step stopped. -/
def Step.next {s : List Char} (x : Step α s) (f : α → Reader β) : Step β s :=
  match x with
  | .error e => .error e
  | .ok (a, r) => (f a r.1).map fun (b, q) => (b, r.trans q)

/-- Looks for the next item of an array whose opening bracket and `first`
items are read: `true` with the text at the item, or `false` with the text
at the closing bracket. -/
def peekItem (first : Bool) (s : List Char) : Except Fault (Bool × Rest s) :=
  match blank s with
  | ⟨[], _⟩ => .error (Fault.next .eofWhileParsingList [])
  | ⟨']' :: cs, h⟩ => .ok (false, Rest.lift h (Rest.refl (']' :: cs)))
  | ⟨c :: cs, h⟩ =>
    if first then .ok (true, Rest.lift h (Rest.refl (c :: cs)))
    else if c = ',' then
      match blank cs with
      | ⟨']' :: t, _⟩ => .error (Fault.next .trailingComma (']' :: t))
      | ⟨[], _⟩ => .error (Fault.next .eofWhileParsingValue [])
      | ⟨d :: t, hd⟩ => .ok (true, Rest.lift h (Rest.cons c (Rest.lift hd (Rest.refl (d :: t)))))
    else .error (Fault.next .expectedListCommaOrEnd (c :: cs))

/-- Reads the item at `index` of an array that must have it; an array
ending before it is too short for `expected`. -/
def requiredItem (first : Bool) (index : Nat) (expected : String) (read : Reader α) :
    Reader α := fun s =>
  match peekItem first s with
  | .error f => .error f
  | .ok (true, r) => (read r.1).map fun (v, q) => (v, r.trans q)
  | .ok (false, r) => .error (.loose (.invalidLength index expected) r.1)

/-- Reads the next item of an array, or gives `default` when the array
ends here. -/
def optionalItem (first : Bool) (default : α) (read : Reader α) : Reader α := fun s =>
  match peekItem first s with
  | .error f => .error f
  | .ok (true, r) => (read r.1).map fun (v, q) => (v, r.trans q)
  | .ok (false, r) => .ok (default, r)

/-- Reads an array of items of one kind; each item gets the depth budget
left inside the array. -/
def readSeqOf (item : Nat → Reader α) (depth : Nat) : Reader (List α) :=
  readBracketed depth "a sequence" (some fun d => items (item d)) none

/-- Reads the colon after a key and the value after it. -/
def memberValue (read : Reader α) : Reader α := fun s =>
  match colon s with
  | .error f => .error f
  | .ok r => (read r.1).map fun (v, q) => (v, r.trans q)

/-- Passes over the colon and value of a member that names no field. -/
def skipMember (st : σ) : Reader σ := fun s =>
  match colon s with
  | .error f => .error f
  | .ok r => (skipValue r.1).map fun q => (st, r.trans q)

/-- Reads the value of a field unless it was given before, which is an
error placed right after the key. -/
def fieldOnce (name : String) (seen : Option α) (read : Reader α) : Reader α := fun s =>
  match seen with
  | some _ => .error (.loose (.duplicateField name) s)
  | none => memberValue read s

end EntityGraph.Json
