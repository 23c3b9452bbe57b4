import EntityGraph.Decimal.Shortest
/-! Writing a double as text from its shortest decimal. A `Layout` holds
the choices a number format makes: for which exponents of the leading digit
the number is written positionally, whether an integral positional number
keeps a `.0`, and how an exponent is marked. -/

namespace EntityGraph.Decimal

/-- The choices of a text format for doubles. The number is positional
when `fixedFrom ≤ lead < fixedBelow`, `lead` being the exponent of its
leading digit, and in scientific form otherwise. -/
structure Layout where
  fixedFrom : Int
  fixedBelow : Int
  /-- An integral positional number ends in `.0`. -/
  pointZero : Bool
  /-- A non-negative exponent carries a `+`. -/
  plusExponent : Bool

/-- JSON text: positional from `1e-5` up to below `1e16`, integral values
with `.0`, and `1e+16`, `1.5e-7` beyond. -/
def Layout.json : Layout := ⟨-5, 16, true, true⟩

/-- Plain text: always positional, with `.0` on an integral value, so
`1e300` is a one followed by three hundred zeros and `.0`. Exponents of
doubles lie between -324 and 308, inside these bounds. -/
def Layout.positional : Layout := ⟨-400, 400, true, true⟩

/-- A string of `n` zeros. -/
def zeros (n : Nat) : String := String.ofList (List.replicate n '0')

/-- The decimal digits of a natural number. -/
def digitsText (n : Nat) : String := String.ofList (Nat.toDigits 10 n)

/-- The text of a decimal `d` (digits without trailing zeros) in a layout. -/
def Layout.render (l : Layout) (negative : Bool) (d : Numeral) : String :=
  let ds := digitsText d.digits
  let count := ds.length
  let lead : Int := d.exponent + count - 1
  let sign := if negative then "-" else ""
  let body :=
    if l.fixedFrom ≤ lead ∧ lead < l.fixedBelow then
      if lead < 0 then
        "0." ++ zeros ((-lead).toNat - 1) ++ ds
      else if d.exponent ≥ 0 then
        ds ++ zeros d.exponent.toNat ++ (if l.pointZero then ".0" else "")
      else
        let intDigits := lead.toNat + 1
        String.ofList (ds.toList.take intDigits) ++ "." ++ String.ofList (ds.toList.drop intDigits)
    else
      let rest := String.ofList (ds.toList.drop 1)
      let mantissa := String.ofList (ds.toList.take 1) ++ (if rest.isEmpty then "" else "." ++ rest)
      let expSign := if lead < 0 then "-" else if l.plusExponent then "+" else ""
      mantissa ++ "e" ++ expSign ++ digitsText lead.natAbs
  sign ++ body

/-- The text of a double in a layout; infinities and NaN are spelled `inf`,
`-inf` and `NaN`. -/
def Layout.renderFloat (l : Layout) (x : Float) : String :=
  if x.isNaN then "NaN"
  else if x.isInf then (if x < 0 then "-inf" else "inf")
  else
    let b := Binary.ofFloat x
    if b.significand == 0 then
      (if b.negative then "-" else "") ++ (if l.pointZero then "0.0" else "0")
    else l.render b.negative (shortest b)

end EntityGraph.Decimal
