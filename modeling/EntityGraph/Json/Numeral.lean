import EntityGraph.Json.Scan
/-! Numbers in JSON text. Digits alone are an unsigned integer while they
fit in 64 bits; after a minus sign they are a negative integer while it is
not below -2^63 (and `-0` is the double negative zero). Any other number
is a double assembled from its decimal parts: the significand keeps the
leading digits while they fit in 64 bits (the others only shift the
exponent), and the double is the significand times or divided by one
power of ten. A result too large for a double is an error; one too small
is zero. -/

namespace EntityGraph.Json

/-- A decimal digit. -/
def isDigit (c : Char) : Bool := '0' ≤ c && c ≤ '9'

/-- The value of a decimal digit. -/
def digitValue (c : Char) : Nat := c.toNat - 48

/-- The powers of ten from `1e0` to `1e308` as doubles. -/
def powersOfTen : Array Float :=
  (Array.range 309).map (fun k => Float.ofScientific 1 false k)

/-- The double `significand · 10^exponent` built the way the reader does
it: one multiplication or division by a power of ten, with exponents below
-308 first divided down by `1e308`; `none` when the result is infinite. -/
def floatOfParts (significand : Nat) (exponent : Int) : Option Float :=
  go significand.toUInt64.toFloat exponent
where
  go (f : Float) (exponent : Int) : Option Float :=
    if h : exponent.natAbs ≤ 308 then
      let pow := powersOfTen[exponent.natAbs]?.getD 1
      if exponent ≥ 0 then
        let g := f * pow
        if g.isInf then none else some g
      else some (f / pow)
    else if f == 0 then some f
    else if exponent ≥ 0 then none
    else go (f / 1e308) (exponent + 308)
  termination_by exponent.natAbs
  decreasing_by omega

/-- Clamps an exponent to the 32-bit range. -/
def clampExponent (x : Int) : Int := max (-2147483648) (min 2147483647 x)

/-- Drops leading digits. -/
def skipDigits : (s : List Char) → Rest s
  | [] => Rest.refl []
  | c :: cs => if isDigit c then Rest.cons c (skipDigits cs) else Rest.refl (c :: cs)

/-- The double of a sign and decimal parts, ending at the text `s`. -/
def finishFloat (positive : Bool) (significand : Nat) (exponent : Int) (s : List Char) :
    Step Number s :=
  match floatOfParts significand exponent with
  | none => .error (Fault.here .numberOutOfRange s)
  | some f => .ok (.float (if positive then f else -f), Rest.refl s)

/-- An exponent too large for 32 bits: an error when it makes a nonzero
number grow, zero when it makes it shrink. `s` follows the digit that
overflowed. -/
def exponentOverflow (positive zero positiveExponent : Bool) (s : List Char) :
    Step Number s :=
  if !zero && positiveExponent then .error (Fault.here .numberOutOfRange s)
  else .ok (.float (if positive then 0.0 else -0.0), skipDigits s)

/-- Reads the digits of an exponent after its first one. -/
def exponentDigits (positive : Bool) (significand : Nat) (start : Int)
    (positiveExponent : Bool) (acc : Nat) : (s : List Char) → Step Number s
  | [] => finishFloat positive significand (clampExponent (if positiveExponent then start + acc else start - acc)) []
  | c :: cs =>
    if isDigit c then
      let acc' := acc * 10 + digitValue c
      if acc' > 2147483647 then
        (exponentOverflow positive (significand == 0) positiveExponent cs).map
          (fun (n, r) => (n, Rest.cons c r))
      else (exponentDigits positive significand start positiveExponent acc' cs).map
          (fun (n, r) => (n, Rest.cons c r))
    else finishFloat positive significand
      (clampExponent (if positiveExponent then start + acc else start - acc)) (c :: cs)

/-- Reads the first digit of an exponent and the rest after it. -/
def exponentStart (positive : Bool) (significand : Nat) (start : Int)
    (positiveExponent : Bool) (s : List Char) : Step Number s :=
  match s with
  | [] => .error (Fault.here .eofWhileParsingValue [])
  | c :: cs =>
    if isDigit c then
      (exponentDigits positive significand start positiveExponent (digitValue c) cs).map
        (fun (n, r) => (n, Rest.cons c r))
    else .error (.placed (.malformed .invalidNumber) ⟨c :: cs, 1⟩)

/-- Reads an exponent from its `e` or `E` on. -/
def exponent (positive : Bool) (significand : Nat) (start : Int) (s : List Char) :
    Step Number s :=
  match s with
  | [] => finishFloat positive significand start []
  | e :: cs =>
    let signed : Step Number cs :=
      match cs with
      | '+' :: t => (exponentStart positive significand start true t).map
          (fun (n, r) => (n, Rest.cons '+' r))
      | '-' :: t => (exponentStart positive significand start false t).map
          (fun (n, r) => (n, Rest.cons '-' r))
      | other => exponentStart positive significand start true other
    signed.map (fun (n, r) => (n, Rest.cons e r))

/-- The end of a number after its fraction or integer part: an exponent if
one follows. -/
def afterFraction (positive : Bool) (significand : Nat) (exp : Int) (s : List Char) :
    Step Number s :=
  match s with
  | c :: t => if c = 'e' || c = 'E' then exponent positive significand exp (c :: t)
    else finishFloat positive significand exp (c :: t)
  | [] => finishFloat positive significand exp []

/-- Reads fraction digits once the significand is full: they are dropped. -/
def fractionOverflow (positive : Bool) (significand : Nat) (exp : Int) (s : List Char) :
    Step Number s :=
  let r := skipDigits s
  (afterFraction positive significand exp r.1).map (fun (n, q) => (n, r.trans q))

/-- Reads the digits of a fraction, `count` of them read so far. -/
def fractionDigits (positive : Bool) (significand : Nat) (before : Int) (count : Nat) :
    (s : List Char) → Step Number s
  | [] =>
    if count == 0 then .error (Fault.next .eofWhileParsingValue [])
    else afterFraction positive significand (before - count) []
  | c :: cs =>
    if isDigit c then
      let next := significand * 10 + digitValue c
      if next ≥ Nat.pow 2 64 then fractionOverflow positive significand (before - count) (c :: cs)
      else (fractionDigits positive next before (count + 1) cs).map
        (fun (n, r) => (n, Rest.cons c r))
    else if count == 0 then .error (Fault.next .invalidNumber (c :: cs))
    else afterFraction positive significand (before - count) (c :: cs)

/-- Reads a fraction from its point on. -/
def fraction (positive : Bool) (significand : Nat) (before : Int) (s : List Char) :
    Step Number s :=
  match s with
  | [] => finishFloat positive significand before []
  | p :: cs => (fractionDigits positive significand before 0 cs).map
      (fun (n, r) => (n, Rest.cons p r))

/-- Reads integer digits once the significand is full: each one raises the
exponent. -/
def longInteger (positive : Bool) (significand : Nat) (exp : Int) :
    (s : List Char) → Step Number s
  | [] => finishFloat positive significand exp []
  | c :: cs =>
    if isDigit c then
      (longInteger positive significand (exp + 1) cs).map (fun (n, r) => (n, Rest.cons c r))
    else if c = '.' then fraction positive significand exp (c :: cs)
    else if c = 'e' || c = 'E' then exponent positive significand exp (c :: cs)
    else finishFloat positive significand exp (c :: cs)

/-- The number an integer part stands for when nothing follows it. -/
def integerValue (positive : Bool) (significand : Nat) : Number :=
  if positive then .nat significand.toUInt64
  else if significand == 0 then .float (-0.0)
  else if significand ≤ Nat.pow 2 63 then .neg (Int64.ofInt (-(significand : Int)))
  else .float (-significand.toUInt64.toFloat)

/-- What follows an integer part: a fraction, an exponent, or nothing. -/
def afterInteger (positive : Bool) (significand : Nat) (s : List Char) : Step Number s :=
  match s with
  | c :: t =>
    if c = '.' then fraction positive significand 0 (c :: t)
    else if c = 'e' || c = 'E' then exponent positive significand 0 (c :: t)
    else .ok (integerValue positive significand, Rest.refl (c :: t))
  | [] => .ok (integerValue positive significand, Rest.refl [])

/-- Reads integer digits while the value fits in 64 bits. -/
def integerDigits (positive : Bool) (significand : Nat) : (s : List Char) → Step Number s
  | [] => afterInteger positive significand []
  | c :: cs =>
    if isDigit c then
      let next := significand * 10 + digitValue c
      if next ≥ Nat.pow 2 64 then longInteger positive significand 0 (c :: cs)
      else (integerDigits positive next cs).map (fun (n, r) => (n, Rest.cons c r))
    else afterInteger positive significand (c :: cs)

/-- Reads a number without its sign. A leading zero stands alone. -/
def unsignedNumber (positive : Bool) (s : List Char) : Step Number s :=
  match s with
  | [] => .error (Fault.here .eofWhileParsingValue [])
  | c :: cs =>
    if c = '0' then
      match cs with
      | d :: t =>
        if isDigit d then .error (Fault.next .invalidNumber (d :: t))
        else (afterInteger positive 0 (d :: t)).map (fun (n, r) => (n, Rest.cons c r))
      | [] => (afterInteger positive 0 []).map (fun (n, r) => (n, Rest.cons c r))
    else if isDigit c then
      (integerDigits positive (digitValue c) cs).map (fun (n, r) => (n, Rest.cons c r))
    else .error (.placed (.malformed .invalidNumber) ⟨c :: cs, 1⟩)

/-- Passes over an exponent from its `e` on, checking its form. -/
def skipExponent (s : List Char) : Except Fault (Rest s) :=
  match s with
  | [] => .ok (Rest.refl [])
  | e :: cs =>
    let afterSign : Rest cs :=
      match cs with
      | c :: t => if c = '+' || c = '-' then Rest.tail c t else Rest.refl (c :: t)
      | [] => Rest.refl []
    let digits : Except Fault (Rest afterSign.1) :=
      match afterSign.1 with
      | [] => .error (Fault.here .invalidNumber [])
      | c :: t =>
        if isDigit c then .ok (Rest.cons c (skipDigits t))
        else .error (.placed (.malformed .invalidNumber) ⟨c :: t, 1⟩)
    digits.map (fun r => Rest.cons e (afterSign.trans r))

/-- Passes over a fraction from its point on, checking its form. -/
def skipFraction (s : List Char) : Except Fault (Rest s) :=
  match s with
  | [] => .ok (Rest.refl [])
  | p :: cs =>
    let r := skipDigits cs
    if r.1.length == cs.length then .error (Fault.next .invalidNumber cs)
    else
      match r.1 with
      | c :: _ =>
        if c = 'e' || c = 'E' then (skipExponent r.1).map (fun q => Rest.cons p (r.trans q))
        else .ok (Rest.cons p r)
      | [] => .ok (Rest.cons p r)

/-- Passes over what may follow the integer part of a number: a fraction
or an exponent. -/
def skipNumberEnd (r : List Char) : Except Fault (Rest r) :=
  match r with
  | c :: t =>
    if c = '.' then skipFraction (c :: t)
    else if c = 'e' || c = 'E' then skipExponent (c :: t)
    else .ok (Rest.refl (c :: t))
  | [] => .ok (Rest.refl [])

/-- Passes over the rest of a number after its first digit `c`; a leading
zero stands alone. -/
def skipAfterDigit (c : Char) (cs : List Char) : Except Fault (Rest cs) :=
  if c = '0' then
    match cs with
    | d :: t =>
      if isDigit d then .error (Fault.next .invalidNumber (d :: t))
      else skipNumberEnd (d :: t)
    | [] => .ok (Rest.refl [])
  else
    let r := skipDigits cs
    (skipNumberEnd r.1).map fun q => r.trans q

/-- Passes over a number without its sign, checking its form. -/
def skipUnsigned (s : List Char) : Except Fault (Rest s) :=
  match s with
  | [] => .error (Fault.here .invalidNumber [])
  | c :: cs =>
    if isDigit c then (skipAfterDigit c cs).map (Rest.cons c)
    else .error (.placed (.malformed .invalidNumber) ⟨c :: cs, 1⟩)

end EntityGraph.Json
