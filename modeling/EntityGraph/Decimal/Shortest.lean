/-! The shortest decimal that reads back as a given double.

A finite positive double is `m · 2^q`. Every real strictly between the
midpoints to its two neighbouring doubles reads back as it, and so do the
midpoints themselves when `m` is even (reading rounds a tie to the even
significand). For one digit, then two, up to seventeen, the two points of
the decimal grid of that many significant digits around the value are
tested against that interval in exact `Nat` arithmetic; the first grid with
a point inside wins, and of two points inside the nearer one is taken. -/

namespace EntityGraph.Decimal

/-- A double split into its parts: `significand · 2^exponent`, with the
sign apart. -/
structure Binary where
  negative : Bool
  significand : Nat
  exponent : Int
  /-- The neighbour below is closer than the one above: the significand is
  a power of two that is not the smallest normal one's lower edge. -/
  narrowBelow : Bool

/-- The parts of a double, read off its bits. -/
def Binary.ofFloat (x : Float) : Binary :=
  let bits : Nat := x.toBits.toNat
  let negative : Bool := bits / Nat.pow 2 63 % 2 == 1
  let biased : Nat := bits / Nat.pow 2 52 % Nat.pow 2 11
  let fraction : Nat := bits % Nat.pow 2 52
  if biased == 0 then
    ⟨negative, fraction, -1074, false⟩
  else
    ⟨negative, fraction + Nat.pow 2 52, Int.ofNat biased - 1075, fraction == 0 && biased > 1⟩

/-- A decimal `digits · 10^exponent` with no trailing zero in `digits`
(unless it is zero). -/
structure Numeral where
  digits : Nat
  exponent : Int

/-- The number of decimal digits of `n` (one for zero). -/
def digitCount (n : Nat) : Nat :=
  (Nat.toDigits 10 n).length

/-- Drops trailing zeros of the digits, raising the exponent to match. -/
def Numeral.normalize (d : Numeral) : Numeral :=
  go d.digits d.exponent (digitCount d.digits)
where
  go (digits : Nat) (exponent : Int) : Nat → Numeral
    | 0 => ⟨digits, exponent⟩
    | fuel + 1 =>
      if digits != 0 && digits % 10 == 0 then go (digits / 10) (exponent + 1) fuel
      else ⟨digits, exponent⟩

/-- Scale factors that put `d · 10^k` and `b · 2^e` over one denominator:
`d · 10^k ≤ b · 2^e` iff `d · fst ≤ b · snd`. -/
def scales (k e : Int) : Nat × Nat :=
  (Nat.pow 10 k.toNat * Nat.pow 2 (-e).toNat, Nat.pow 2 e.toNat * Nat.pow 10 (-k).toNat)

/-- The exponent of the leading decimal digit of `num / den` (both positive). -/
def leadingExponent (num den : Nat) : Int :=
  let guess : Int := (digitCount num : Int) - digitCount den
  let reaches : Bool :=
    if guess ≥ 0 then num ≥ den * Nat.pow 10 guess.toNat else num * Nat.pow 10 (-guess).toNat ≥ den
  if reaches then guess else guess - 1

/-- The shortest decimal that reads back as the positive double
`b.significand · 2^b.exponent`; of two shortest ones the nearer, and of two
equally near ones the one with the even last digit. -/
def shortest (b : Binary) : Numeral :=
  let m := b.significand
  -- the value and the ends of its interval, in units of 2^(exponent - 2)
  let e := b.exponent - 2
  let value := 4 * m
  let low := if b.narrowBelow then 4 * m - 1 else 4 * m - 2
  let high := 4 * m + 2
  let inclusive := m % 2 == 0
  let lead := leadingExponent (value * Nat.pow 2 e.toNat) (Nat.pow 2 (-e).toNat)
  let inside (d : Nat) (k : Int) : Bool :=
    let (a, s) := scales k e
    if inclusive then low * s ≤ d * a && d * a ≤ high * s
    else low * s < d * a && d * a < high * s
  let rec search : Nat → Nat → Numeral
    | 0, _ => ⟨0, 0⟩
    | fuel + 1, n =>
      let k := lead - n + 1
      let (a, s) := scales k e
      let below := value * s / a
      let exact := below * a == value * s
      let above := below + 1
      let belowIn := inside below k
      let aboveIn := !exact && inside above k
      if fuel == 0 || (belowIn && aboveIn) then
        if exact then ⟨below, k⟩
        else
          let downGap := value * s - below * a
          let upGap := above * a - value * s
          if downGap < upGap then ⟨below, k⟩
          else if upGap < downGap then ⟨above, k⟩
          else if below % 2 == 0 then ⟨below, k⟩ else ⟨above, k⟩
      else if belowIn then ⟨below, k⟩
      else if aboveIn then ⟨above, k⟩
      else search fuel (n + 1)
  (search 17 1).normalize

end EntityGraph.Decimal
