import EntityGraph.Json.Numeral
/-! Reading values from JSON text. Arrays and objects are read item by
item: after the first item each one needs a comma before it, and a comma
before the closing bracket is an error. Readers of nested values get a depth
budget; opening a bracket when only one level is left is an error.

`wrongType` is the complaint about a value of another kind than wanted: a
name, number or string is read first, so the complaint stands after it,
while a bracket is not read. `skipValue` passes over a value of any depth,
checking only its form, as is done for object members nobody asked for. -/

namespace EntityGraph.Json

open Decode

/-- A reader of one value of type `α` from the front of any text. -/
abbrev Reader (α : Type) := (s : List Char) → Step α s

/-- The end of an array: the closing bracket, or the fault found instead
of it. The text after the attempt is returned either way. -/
def closeSeq (s : List Char) : Option Fault × Rest s :=
  match blank s with
  | ⟨']' :: cs, h⟩ => (none, Rest.lift h (Rest.tail ']' cs))
  | ⟨',' :: cs, h⟩ =>
    let r := blank cs
    let q : Rest s := Rest.lift h (Rest.cons ',' r)
    match r.1 with
    | ']' :: _ => (some (Fault.next .trailingComma r.1), q)
    | _ => (some (Fault.next .trailingCharacters r.1), q)
  | ⟨c :: cs, h⟩ => (some (Fault.next .trailingCharacters (c :: cs)), Rest.lift h (Rest.refl _))
  | ⟨[], h⟩ => (some (Fault.next .eofWhileParsingList []), Rest.lift h (Rest.refl _))

/-- The end of an object: the closing brace, or the fault found instead. -/
def closeMap (s : List Char) : Option Fault × Rest s :=
  match blank s with
  | ⟨'}' :: cs, h⟩ => (none, Rest.lift h (Rest.tail '\x7d' cs))
  | ⟨',' :: cs, h⟩ => (some (Fault.next .trailingComma (',' :: cs)), Rest.lift h (Rest.refl _))
  | ⟨c :: cs, h⟩ => (some (Fault.next .trailingCharacters (c :: cs)), Rest.lift h (Rest.refl _))
  | ⟨[], h⟩ => (some (Fault.next .eofWhileParsingObject []), Rest.lift h (Rest.refl _))

/-- Reads the inside of a bracketed value with `inside`, then its end with
`close`. A fault inside wins over one at the end; a complaint without a
place is placed where reading stopped after trying the end. -/
def enclosed (close : (s : List Char) → Option Fault × Rest s) (inside : Reader α) :
    Reader α := fun s =>
  match inside s with
  | .ok (v, r) =>
    match close r.1 with
    | (none, q) => .ok (v, r.trans q)
    | (some f, _) => .error f
  | .error (.loose m stop) => .error (Fault.wrong m (close stop).2.1)
  | .error f => .error f

/-- Places a complaint without a place at the point where reading stopped. -/
def Fault.settle : Fault → Fault
  | .loose m stop => Fault.wrong m stop
  | f => f

/-- Reads the items of an array after the first one, each after a comma,
up to the closing bracket (which is left in the text). -/
def moreItems (item : Reader α) (acc : List α) (s : List Char) : Step (List α) s :=
  match blank s with
  | ⟨[], _⟩ => .error (Fault.next .eofWhileParsingList [])
  | ⟨']' :: cs, h⟩ => .ok (acc.reverse, Rest.lift h (Rest.refl (']' :: cs)))
  | ⟨',' :: cs, h⟩ =>
    match blank cs with
    | ⟨']' :: t, _⟩ => .error (Fault.next .trailingComma (']' :: t))
    | ⟨[], _⟩ => .error (Fault.next .eofWhileParsingValue [])
    | ⟨c :: t, hc⟩ =>
      match item (c :: t) with
      | .error f => .error f
      | .ok (v, r) =>
        (moreItems item (v :: acc) r.1).map fun (vs, q) =>
          (vs, Rest.lift h (Rest.cons ',' (Rest.lift hc (r.trans q))))
  | ⟨c :: cs, _⟩ => .error (Fault.next .expectedListCommaOrEnd (c :: cs))
termination_by s.length
decreasing_by
  have := r.2
  simp only [List.length_cons] at h hc this
  omega

/-- Reads the items of an array after its opening bracket, up to the
closing bracket (left in the text). -/
def items (item : Reader α) (s : List Char) : Step (List α) s :=
  match blank s with
  | ⟨[], _⟩ => .error (Fault.next .eofWhileParsingList [])
  | ⟨']' :: cs, h⟩ => .ok ([], Rest.lift h (Rest.refl (']' :: cs)))
  | ⟨c :: cs, h⟩ =>
    match item (c :: cs) with
    | .error f => .error f
    | .ok (v, r) => (moreItems item [v] r.1).map fun (vs, q) => (vs, Rest.lift h (r.trans q))

/-- Reads the colon after a key. -/
def colon (s : List Char) : Except Fault (Rest s) :=
  match blank s with
  | ⟨':' :: cs, h⟩ => .ok (Rest.lift h (Rest.tail ':' cs))
  | ⟨[], _⟩ => .error (Fault.next .eofWhileParsingObject [])
  | ⟨c :: cs, _⟩ => .error (Fault.next .expectedColon (c :: cs))

/-- What to do with a member of an object once its key is read: read the
colon and the value from the text after the key, and fold it into a state. -/
abbrev MemberReader (σ : Type) := σ → String → Reader σ

/-- Reads the members of an object after the first one, each after a
comma, up to the closing brace (left in the text). -/
def moreMembers (member : MemberReader σ) (st : σ) (s : List Char) : Step σ s :=
  match blank s with
  | ⟨[], _⟩ => .error (Fault.next .eofWhileParsingObject [])
  | ⟨'}' :: cs, h⟩ => .ok (st, Rest.lift h (Rest.refl ('}' :: cs)))
  | ⟨',' :: cs, h⟩ =>
    match blank cs with
    | ⟨'"' :: t, hc⟩ =>
      match string t with
      | .error f => .error f
      | .ok (key, k) =>
        match member st key k.1 with
        | .error f => .error f
        | .ok (st', r) =>
          (moreMembers member st' r.1).map fun (v, q) =>
            (v, Rest.lift h (Rest.cons ',' (Rest.lift hc (Rest.cons '"' (k.trans (r.trans q))))))
    | ⟨'}' :: t, _⟩ => .error (Fault.next .trailingComma ('}' :: t))
    | ⟨[], _⟩ => .error (Fault.next .eofWhileParsingValue [])
    | ⟨c :: t, _⟩ => .error (Fault.next .keyMustBeAString (c :: t))
  | ⟨c :: cs, _⟩ => .error (Fault.next .expectedObjectCommaOrEnd (c :: cs))
termination_by s.length
decreasing_by
  have := r.2
  have := k.2
  simp only [List.length_cons] at *
  omega

/-- Reads the members of an object after its opening brace, up to the
closing brace (left in the text). -/
def members (member : MemberReader σ) (st : σ) (s : List Char) : Step σ s :=
  match blank s with
  | ⟨[], _⟩ => .error (Fault.next .eofWhileParsingObject [])
  | ⟨'}' :: cs, h⟩ => .ok (st, Rest.lift h (Rest.refl ('}' :: cs)))
  | ⟨'"' :: t, h⟩ =>
    match string t with
    | .error f => .error f
    | .ok (key, k) =>
      match member st key k.1 with
      | .error f => .error f
      | .ok (st', r) =>
        (moreMembers member st' r.1).map fun (v, q) =>
          (v, Rest.lift h (Rest.cons '"' (k.trans (r.trans q))))
  | ⟨c :: cs, _⟩ => .error (Fault.next .keyMustBeAString (c :: cs))

end EntityGraph.Json

namespace EntityGraph

/-- How a complaint names a number. -/
def Number.found : Number → Decode.Found
  | .nat n => .unsigned n.toNat
  | .neg n => .signed n.toInt
  | .float x => .float x

end EntityGraph

namespace EntityGraph.Json

open Decode

/-- The complaint that the value at the front of `s` is not the `expected`
one. Names, numbers and strings are read first and the complaint placed
after them; a bracket is not read. -/
def wrongType (expected : String) (s : List Char) : Fault :=
  let after (found : Found) (r : List Char) : Fault := Fault.wrong (.invalidType found expected) r
  match s with
  | c :: cs =>
    if c = 'n' then
      match ident ['u', 'l', 'l'] cs with
      | .error f => f
      | .ok q => after .unit q.1
    else if c = 't' then
      match ident ['r', 'u', 'e'] cs with
      | .error f => f
      | .ok q => after (.bool true) q.1
    else if c = 'f' then
      match ident ['a', 'l', 's', 'e'] cs with
      | .error f => f
      | .ok q => after (.bool false) q.1
    else if c = '-' then
      match unsignedNumber false cs with
      | .error f => f
      | .ok (n, q) => after n.found q.1
    else if isDigit c then
      match unsignedNumber true (c :: cs) with
      | .error f => f
      | .ok (n, q) => after n.found q.1
    else if c = '"' then
      match string cs with
      | .error f => f
      | .ok (v, q) => after (.str v) q.1
    else if c = '[' then Fault.wrong (.invalidType .seq expected) (c :: cs)
    else if c = '{' then Fault.wrong (.invalidType .map expected) (c :: cs)
    else Fault.next .expectedSomeValue (c :: cs)
  | [] => Fault.next .expectedSomeValue []

/-- Reads a string. -/
def readString : Reader String := fun s =>
  match blank s with
  | ⟨[], _⟩ => .error (Fault.next .eofWhileParsingValue [])
  | ⟨c :: cs, h⟩ =>
    if c = '"' then (string cs).map fun (v, q) => (v, Rest.lift h (Rest.cons c q))
    else .error (wrongType "a string" (c :: cs))

/-- Reads `true` or `false`. -/
def readBool : Reader Bool := fun s =>
  match blank s with
  | ⟨[], _⟩ => .error (Fault.next .eofWhileParsingValue [])
  | ⟨c :: cs, h⟩ =>
    if c = 't' then (ident ['r', 'u', 'e'] cs).map fun q => (true, Rest.lift h (Rest.cons c q))
    else if c = 'f' then (ident ['a', 'l', 's', 'e'] cs).map fun q => (false, Rest.lift h (Rest.cons c q))
    else .error (wrongType "a boolean" (c :: cs))

/-- Reads an unsigned 64-bit integer; a negative integer is out of range
and a double is of the wrong kind, both complained about after the number. -/
def readU64 : Reader UInt64 := fun s =>
  let accept (n : Number) (r : List Char) : Except Fault UInt64 :=
    match n with
    | .nat v => .ok v
    | .neg v => .error (Fault.wrong (.invalidValue (.signed v.toInt) "u64") r)
    | .float x => .error (Fault.wrong (.invalidType (.float x) "u64") r)
  match blank s with
  | ⟨[], _⟩ => .error (Fault.next .eofWhileParsingValue [])
  | ⟨c :: cs, h⟩ =>
    if c = '-' then
      match unsignedNumber false cs with
      | .error f => .error f
      | .ok (n, q) => (accept n q.1).map fun v => (v, Rest.lift h (Rest.cons c q))
    else if isDigit c then
      match unsignedNumber true (c :: cs) with
      | .error f => .error f
      | .ok (n, q) => (accept n q.1).map fun v => (v, Rest.lift h q)
    else .error (wrongType "u64" (c :: cs))

/-- Reads a bracketed value: `[` and `{` each open one level of the depth
budget, and no level may be opened when only one is left. `ifSeq` and
`ifMap` read what follows the opening bracket; anything else is complained
about as not `expected`. -/
def readBracketed (depth : Nat) (expected : String)
    (ifSeq : Option (Nat → Reader α)) (ifMap : Option (Nat → Reader α)) : Reader α := fun s =>
  match blank s with
  | ⟨[], _⟩ => .error (Fault.next .eofWhileParsingValue [])
  | ⟨c :: cs, h⟩ =>
    let open_ (close : (s : List Char) → Option Fault × Rest s) (inside : Nat → Reader α) :
        Step α s :=
      if depth ≤ 1 then .error (Fault.next .recursionLimitExceeded (c :: cs))
      else (enclosed close (inside (depth - 1)) cs).map fun (v, q) => (v, Rest.lift h (Rest.cons c q))
    match c, ifSeq, ifMap with
    | '[', some inside, _ => open_ closeSeq inside
    | '{', _, some inside => open_ closeMap inside
    | _, _, _ => .error (wrongType expected (c :: cs))

/-- Reads the colon and the value of an object member and puts the member
among those read before it, where it replaces one of the same key. -/
def valueMember (inner : Reader Json) : MemberReader (List (String × Json)) := fun acc key t =>
  match colon t with
  | .error f => .error f
  | .ok r => (inner r.1).map fun (v, q) => (Json.insertMember key v acc, r.trans q)

/-- Reads any value, given a reader for nested values (`none` when the
depth budget is spent). -/
def valueWith (nested : Option (Reader Json)) : Reader Json := fun s =>
  match blank s with
  | ⟨[], _⟩ => .error (Fault.next .eofWhileParsingValue [])
  | ⟨c :: cs, h⟩ =>
    let lift (x : Step Json cs) : Step Json s :=
      x.map fun (v, q) => (v, Rest.lift h (Rest.cons c q))
    if c = 'n' then lift ((ident ['u', 'l', 'l'] cs).map fun q => (.null, q))
    else if c = 't' then lift ((ident ['r', 'u', 'e'] cs).map fun q => (.bool true, q))
    else if c = 'f' then lift ((ident ['a', 'l', 's', 'e'] cs).map fun q => (.bool false, q))
    else if c = '-' then lift ((unsignedNumber false cs).map fun (n, q) => (.num n, q))
    else if isDigit c then
      (unsignedNumber true (c :: cs)).map fun (n, q) => (.num n, Rest.lift h q)
    else if c = '"' then lift ((string cs).map fun (v, q) => (.str v, q))
    else if c = '[' then
      match nested with
      | none => .error (Fault.next .recursionLimitExceeded (c :: cs))
      | some inner => lift ((enclosed closeSeq (items inner) cs).map fun (vs, q) => (.arr vs, q))
    else if c = '{' then
      match nested with
      | none => .error (Fault.next .recursionLimitExceeded (c :: cs))
      | some inner =>
        lift ((enclosed closeMap (members (valueMember inner) []) cs).map fun (ms, q) =>
          (.obj ms, q))
    else .error (Fault.next .expectedSomeValue (c :: cs))

/-- Reads any value with a depth budget: the number of levels that may
still be opened, plus one. -/
def readValue : Nat → Reader Json
  | d + 2 => valueWith (some (readValue (d + 1)))
  | _ => valueWith none

/-- The depth budget of a whole document. -/
def depthBudget : Nat := 128

end EntityGraph.Json
