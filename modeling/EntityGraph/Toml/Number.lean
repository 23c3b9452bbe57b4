import EntityGraph.Toml.Token
/-! Numbers, booleans and dates in TOML. An integer is decimal (a single
`0`, or digits not starting with `0`, single underscores allowed between
digits) with an optional sign, or hexadecimal, octal or binary after `0x`,
`0o`, `0b`; it must fit in 64 bits. A float is a decimal integer part with
a fraction, an exponent or both, or `inf` or `nan` with an optional sign;
it is read to the nearest double, and only a positive overflow to infinity
is refused: a negative one is kept as negative infinity. -/

namespace EntityGraph.Toml

/-- A decimal digit. -/
def isDigit (c : Char) : Bool := '0' ≤ c && c ≤ '9'

/-- Reads the rest of a digit run in which single underscores may stand
between digits; a digit must follow each underscore, and `missing` is the
problem's message when none does. The digits are collected in reverse in
`acc`. -/
def digitRun (missing : String) (acc : List Char) : (s : List Char) → Step (List Char) s
  | [] => .ok (acc, Rest.refl [])
  | c :: cs =>
    if isDigit c then (digitRun missing (c :: acc) cs).map fun (v, r) => (v, Rest.cons c r)
    else if c = '_' then
      match cs with
      | d :: ds =>
        if isDigit d then
          (digitRun missing (d :: acc) ds).map fun (v, r) => (v, Rest.cons c (Rest.cons d r))
        else .error (Problem.at missing (d :: ds))
      | [] => .error (Problem.at missing [])
    else .ok (acc, Rest.refl (c :: cs))

/-- Reads the digits of a fraction or exponent, which may start with `0`.
`start` is the message when no digit comes first, `missing` the one when
no digit follows an underscore. -/
def zeroPrefixable (start missing : String) (s : List Char) : Step (List Char) s :=
  match s with
  | c :: cs =>
    if isDigit c then (digitRun missing [c] cs).map fun (v, r) => (v.reverse, Rest.cons c r)
    else .error (Problem.at start (c :: cs))
  | [] => .error (Problem.at start [])

/-- Reads the unsigned part of a decimal integer: a single `0`, or digits
not starting with `0`. `none` when no digit starts the text. -/
def unsignedDigits (s : List Char) : Option (Step (List Char) s) :=
  match s with
  | c :: cs =>
    if c = '0' then some (.ok (['0'], Rest.tail c cs))
    else if isDigit c then
      some ((digitRun "invalid integer\nexpected digit" [c] cs).map fun (v, r) => (v.reverse, Rest.cons c r))
    else none
  | [] => none

/-- The value of some decimal digits. -/
def digitsValue (ds : List Char) : Nat := ds.foldl (fun n d => n * 10 + (d.toNat - 48)) 0

/-- Whether an integer fits in 64 signed bits. -/
def fitsI64 (n : Int) : Bool := -9223372036854775808 ≤ n && n ≤ 9223372036854775807

/-- An integer value, or the problem that it does not fit, placed at the
number's start `s`. -/
def checkedInt (n : Int) (s : List Char) : Except Problem Value :=
  if fitsI64 n then .ok (.int n)
  else if n > 0 then .error (Problem.at "number too large to fit in target type" s)
  else .error (Problem.at "number too small to fit in target type" s)

/-- Reads an exponent from its `e` on: the digits after an optional sign. -/
def exponentPart (s : List Char) : Step Int s :=
  match s with
  | e :: cs =>
    let (negative, r) : Bool × Rest cs :=
      match cs with
      | '+' :: t => (false, Rest.tail '+' t)
      | '-' :: t => (true, Rest.tail '-' t)
      | other => (false, Rest.refl other)
    match zeroPrefixable "invalid floating-point number"
      "invalid floating-point number\nexpected digit" r.1 with
    | .error p => .error p
    | .ok (ds, q) =>
      let v : Int := digitsValue ds
      .ok (if negative then -v else v, Rest.cons e (r.trans q))
  | [] => .error (Problem.at "invalid floating-point number" [])

/-- The double nearest to `digits · 10^exp`. -/
def decimalFloat (digits : Nat) (exp : Int) : Float :=
  if exp < 0 then Float.ofScientific digits true exp.natAbs
  else Float.ofScientific digits false exp.toNat

/-- Reads what follows a decimal integer part: a fraction and an exponent,
or an exponent, making a float; `none` when neither follows. -/
def floatTail (negative : Bool) (intDigits : List Char) (start : List Char) (s : List Char) :
    Option (Step Value s) :=
  let finish (fracDigits : List Char) (exp : Int) : Except Problem Value :=
    let mag := decimalFloat (digitsValue (intDigits ++ fracDigits)) (exp - fracDigits.length)
    let v := if negative then -mag else mag
    if v.isInf && v > 0 then .error (Problem.at "invalid floating-point number" start)
    else .ok (.float v)
  match s with
  | c :: cs =>
    if c = 'e' || c = 'E' then
      some (match exponentPart (c :: cs) with
        | .error p => .error p
        | .ok (exp, r) => (finish [] exp).map fun v => (v, r))
    else if c = '.' then
      some (match zeroPrefixable "invalid floating-point number\nexpected digit"
          "invalid floating-point number\nexpected digit, digit" cs with
        | .error p => .error p
        | .ok (frac, r) =>
          match h : r.1 with
          | d :: ds =>
            if d = 'e' || d = 'E' then
              match exponentPart (d :: ds) with
              | .error p => .error p
              | .ok (exp, q) =>
                (finish frac exp).map fun v =>
                  (v, Rest.cons c (r.trans (Rest.lift (h ▸ Nat.le_refl _) q)))
            else (finish frac 0).map fun v => (v, Rest.cons c r)
          | [] => (finish frac 0).map fun v => (v, Rest.cons c r))
    else none
  | [] => none

/-- Reads `inf` or `nan` after an optional sign. -/
def specialFloat (negative : Bool) (s : List Char) : Option (Step Value s) :=
  match s with
  | 'i' :: 'n' :: 'f' :: cs =>
    some (.ok (.float (if negative then -(1.0 / 0.0) else 1.0 / 0.0),
      Rest.cons 'i' (Rest.cons 'n' (Rest.tail 'f' cs))))
  | 'n' :: 'a' :: 'n' :: cs =>
    some (.ok (.float (if negative then -(0.0 / 0.0) else 0.0 / 0.0),
      Rest.cons 'n' (Rest.cons 'a' (Rest.tail 'n' cs))))
  | _ => none

/-- The value of digits in a base. -/
def radixValue (base : Nat) (ds : List Nat) : Nat := ds.foldl (fun n d => n * base + d) 0

/-- The digit value of a character in a base. -/
def radixDigit? (base : Nat) (c : Char) : Option Nat :=
  match hexValue? c with
  | some v => if v < base then some v else none
  | none => none

/-- Reads digits of a base with single underscores between them. -/
def radixRun (base : Nat) (label : String) (acc : List Nat) : (s : List Char) → Step (List Nat) s
  | [] => .ok (acc.reverse, Rest.refl [])
  | c :: cs =>
    match radixDigit? base c with
    | some d => (radixRun base label (d :: acc) cs).map fun (v, r) => (v, Rest.cons c r)
    | none =>
      if c = '_' then
        match cs with
        | d :: ds =>
          match radixDigit? base d with
          | some v =>
            (radixRun base label (v :: acc) ds).map fun (w, r) => (w, Rest.cons c (Rest.cons d r))
          | none => .error (Problem.at (label ++ "\nexpected digit") (d :: ds))
        | [] => .error (Problem.at (label ++ "\nexpected digit") [])
      else .ok (acc.reverse, Rest.refl (c :: cs))

/-- Reads an integer after `0x`, `0o` or `0b` (the prefix starts `s`). -/
def radixInteger (base : Nat) (label : String) (s : List Char) : Step Value s :=
  match s with
  | z :: p :: cs =>
    match cs with
    | c :: rest =>
      match radixDigit? base c with
      | some d =>
        match radixRun base label [d] rest with
        | .error e => .error e
        | .ok (ds, r) =>
          (checkedInt (radixValue base ds) s).map fun v =>
            (v, Rest.cons z (Rest.cons p (Rest.cons c r)))
      | none => .error (Problem.at label (c :: rest))
    | [] => .error (Problem.at label [])
  | _ => .error (Problem.at label s)

/-- Reads a decimal number (integer or float) with its optional sign. -/
def decimalNumber (s : List Char) : Step Value s :=
  let (negative, signed) : Bool × Rest s :=
    match s with
    | '+' :: t => (false, Rest.tail '+' t)
    | '-' :: t => (true, Rest.tail '-' t)
    | other => (false, Rest.refl other)
  match unsignedDigits signed.1 with
  | some (.error p) => .error p
  | some (.ok (ds, r)) =>
    match floatTail negative ds s r.1 with
    | some (.error p) => .error p
    | some (.ok (v, q)) => .ok (v, signed.trans (r.trans q))
    | none =>
      let n : Int := digitsValue ds
      (checkedInt (if negative then -n else n) s).map fun v => (v, signed.trans r)
  | none =>
    match specialFloat negative signed.1 with
    | some step => step.map fun (v, q) => (v, signed.trans q)
    | none => .error (Problem.noStart "invalid integer" signed.1)

/-- The number of leading digits of a text. -/
def digitCount (s : List Char) : Nat := (s.takeWhile isDigit).length

/-- Reads a date, a time, or a date and time, kept as text. `none` when the
text does not start like one. -/
def dateTime? (s : List Char) : Option (Step Value s) :=
  let isDate := digitCount s = 4 && s.getD 4 ' ' = '-' && digitCount (s.drop 5) = 2 &&
    s.getD 7 ' ' = '-' && digitCount (s.drop 8) = 2
  let isTime := fun (t : List Char) => digitCount t = 2 && t.getD 2 ' ' = ':' &&
    digitCount (t.drop 3) = 2
  let timeLength := fun (t : List Char) =>
    let base := if t.getD 5 ' ' = ':' && digitCount (t.drop 6) = 2 then 8 else 5
    if t.getD base ' ' = '.' && digitCount (t.drop (base + 1)) > 0 then
      base + 1 + digitCount (t.drop (base + 1))
    else base
  let offsetLength := fun (t : List Char) =>
    if t.getD 0 ' ' = 'Z' || t.getD 0 ' ' = 'z' then 1
    else if (t.getD 0 ' ' = '+' || t.getD 0 ' ' = '-') && isTime (t.drop 1) then 6
    else 0
  let total :=
    if isDate then
      let afterDate := s.drop 10
      let sep := afterDate.getD 0 ' '
      if (sep = 'T' || sep = 't' || sep = ' ') && isTime (afterDate.drop 1) then
        let tl := timeLength (afterDate.drop 1)
        11 + tl + offsetLength (afterDate.drop (1 + tl))
      else 10
    else if isTime s then timeLength s
    else 0
  if total = 0 then none
  else some (.ok (.datetime (String.ofList (s.take total)), Rest.skip s total))

/-- Reads a number or a date. -/
def numberOrDate (s : List Char) : Step Value s :=
  match dateTime? s with
  | some step => step
  | none =>
    match s with
    | '0' :: 'x' :: t => radixInteger 16 "invalid hexadecimal integer" ('0' :: 'x' :: t)
    | '0' :: 'o' :: t => radixInteger 8 "invalid octal integer" ('0' :: 'o' :: t)
    | '0' :: 'b' :: t => radixInteger 2 "invalid binary integer" ('0' :: 'b' :: t)
    | other => decimalNumber other

end EntityGraph.Toml
