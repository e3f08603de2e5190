import DocStore.Json.Value

/-!
# Shortest decimals

A floating-point number is written with the fewest digits that read back as the same number, and
among those with the digits nearest to it. `FloatFormat.shortest?` finds them for a format of any
width from the bits of the number, and `FloatLayout.number` decides how they are laid out.
-/

namespace DocStore.Json

/-- A binary interchange format for floating-point numbers. -/
structure FloatFormat where
  /-- The bits of the exponent. -/
  exponentBits : Nat
  /-- The bits of the fraction. -/
  fractionBits : Nat
  deriving DecidableEq, Repr

/-- The format with 32 bits. -/
def FloatFormat.single : FloatFormat := ⟨8, 23⟩

/-- The format with 64 bits. -/
def FloatFormat.double : FloatFormat := ⟨11, 52⟩

/-- A decimal number: `digits` times ten to the power of `power`. -/
structure Decimal where
  negative : Bool
  digits : Nat
  power : Int
  deriving DecidableEq, Repr

/-- The decimals that read back as one number: those between `low / unit` and `high / unit`, of
which `value / unit` is the number itself. -/
structure Interval where
  low : Nat
  value : Nat
  high : Nat
  unit : Nat
  /-- Do the ends belong to the interval? -/
  closed : Bool
  deriving DecidableEq, Repr

namespace Interval

/-- Does `n` times `step / unit` lie in the interval? -/
def holds (i : Interval) (n step : Nat) : Bool :=
  if i.closed then i.low ≤ n * step && n * step ≤ i.high
  else i.low < n * step && n * step < i.high

/-- The interval with all its numbers multiplied by `10 ^ (-power)`, if that is negative, so that
a step of `10 ^ power` becomes a whole number of units. -/
def refine (i : Interval) (power : Int) : Interval :=
  let factor := 10 ^ (-power).toNat
  { i with low := i.low * factor, value := i.value * factor, high := i.high * factor }

/-- The multiple of `10 ^ power` in the interval that is nearest to the number, the even one of two
that are equally near. -/
def nearest? (i : Interval) (power : Int) : Option Nat :=
  let i := i.refine power
  let step := i.unit * 10 ^ power.toNat
  let below := i.value / step
  let twice := 2 * (i.value % step)
  match i.holds below step, i.holds (below + 1) step with
  | true, true =>
    some (if twice < step ∨ (twice = step ∧ below % 2 = 0) then below else below + 1)
  | true, false => some below
  | false, true => some (below + 1)
  | false, false => none

/-- The coarsest multiple in the interval among the powers from `power` down to
`power - fuel + 1`. -/
def coarsest? (i : Interval) : (fuel : Nat) → (power : Int) → Option (Nat × Int)
  | 0, _ => none
  | fuel + 1, power =>
    match i.nearest? power with
    | some n => some (n, power)
    | none => coarsest? i fuel (power - 1)

end Interval

namespace FloatFormat

/-- The interval of a number that is `mantissa` times a power of two. Below a power of two the
numbers lie twice as close as above it. -/
def interval (f : FloatFormat) (mantissa : Nat) (exponent : Int) (isLeast : Bool) : Interval :=
  let scale := 2 ^ exponent.toNat
  let atPower := mantissa = 2 ^ f.fractionBits ∧ !isLeast
  { low := (4 * mantissa - if atPower then 1 else 2) * scale
    value := 4 * mantissa * scale
    high := (4 * mantissa + 2) * scale
    unit := 4 * 2 ^ (-exponent).toNat
    closed := mantissa % 2 = 0 }

/-- The number with these bits in the fewest digits. Infinities have no digits, nor has what is no
number. -/
def shortest? (f : FloatFormat) (bits : Nat) : Option Decimal :=
  let fraction := bits % 2 ^ f.fractionBits
  let biased := bits / 2 ^ f.fractionBits % 2 ^ f.exponentBits
  let negative := bits / 2 ^ (f.fractionBits + f.exponentBits) % 2 = 1
  let bias : Int := 2 ^ (f.exponentBits - 1) - 1 + f.fractionBits
  if biased = 2 ^ f.exponentBits - 1 then none
  else if biased = 0 ∧ fraction = 0 then some ⟨negative, 0, 0⟩
  else
    let mantissa := if biased = 0 then fraction else 2 ^ f.fractionBits + fraction
    let exponent := (if biased = 0 then 1 else biased : Nat) - bias
    let highestBit : Int := mantissa.log2 + exponent
    let top := if 0 ≤ highestBit then highestBit / 3 + 1 else highestBit / 4 + 1
    ((f.interval mantissa exponent (biased ≤ 1)).coarsest? 100 top).map fun (digits, power) =>
      ⟨negative, digits, power⟩

end FloatFormat

/-! ### Layout -/

/-- When a number is written without an exponent. -/
structure FloatLayout where
  /-- Up to so many places may stand before the decimal point. -/
  maxWholePlaces : Int
  /-- Up to so many zeros may follow the decimal point. -/
  maxLeadingZeros : Int
  deriving DecidableEq, Repr

namespace FloatLayout

/-- The layout of numbers with 32 bits. -/
def single : FloatLayout := ⟨13, 5⟩

/-- The layout of numbers with 64 bits. -/
def double : FloatLayout := ⟨16, 4⟩

/-- The number as it is written. A whole number has one place after its decimal point, unless it
has an exponent. -/
def number (l : FloatLayout) (d : Decimal) : Number :=
  let shown := Nat.toDigits 10 d.digits
  let point : Int := shown.length + d.power
  let zeros (n : Int) := List.replicate n.toNat '0'
  let written (whole : List Char) (fraction : Option (List Char)) (exponent : Option Int) :
      Number :=
    ⟨d.negative, ofDigits whole, fraction, exponent⟩
  if 0 ≤ d.power ∧ point ≤ l.maxWholePlaces then
    written (shown ++ zeros d.power) (some ['0']) none
  else if 0 < point ∧ point ≤ l.maxWholePlaces then
    written (shown.take point.toNat) (some (shown.drop point.toNat)) none
  else if -l.maxLeadingZeros ≤ point ∧ point ≤ 0 then
    written [] (some (zeros (-point) ++ shown)) none
  else
    written (shown.take 1) (if shown.length = 1 then none else some (shown.drop 1))
      (some (point - 1))

end FloatLayout

/-- The number with these bits, if it has digits. -/
def Number.ofBits? (format : FloatFormat) (layout : FloatLayout) (bits : Nat) : Option Number :=
  (format.shortest? bits).map layout.number

end DocStore.Json
