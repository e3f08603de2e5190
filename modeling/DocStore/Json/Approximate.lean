import DocStore.Json.Value

/-!
# Floating-point numbers of JSON texts

A decimal is read as a floating-point number in two steps. As many of its digits as fit into 64
bits make the significand (`Number.scaled`), and one multiplication or division by a power of ten
follows (`timesPower?`). Each step rounds, so the result may differ in its last place from the
nearest number. A result that is infinite is none.
-/

namespace DocStore.Json

/-! ### Significands -/

/-- Does the number fit into a significand? -/
def fitsSignificand (n : Nat) : Bool :=
  n < 2 ^ 64

/-- The first digits of a number that fit into a significand, and how many others there are. -/
def leadingDigits (n : Nat) : Nat × Nat :=
  if fitsSignificand n then (n, 0)
  else
    let (kept, dropped) := leadingDigits (n / 10)
    (kept, dropped + 1)
termination_by n
decreasing_by
  rename_i h
  simp only [fitsSignificand, decide_eq_true_eq, Nat.not_lt] at h
  omega

/-- The significand with as many of the digits after it as fit, and how many these are. -/
def appendDigits (significand : Nat) : List Char → Nat × Nat
  | [] => (significand, 0)
  | digit :: digits =>
    let longer := 10 * significand + digitValue digit
    if fitsSignificand longer then
      let (kept, taken) := appendDigits longer digits
      (kept, taken + 1)
    else (significand, 0)

/-- The number without its sign as a significand and a power of ten. -/
def Number.scaled (n : Number) : Nat × Int :=
  let (leading, dropped) := leadingDigits n.whole
  let (significand, taken) := appendDigits leading (n.fraction.getD [])
  (significand, (dropped : Int) - taken + n.exponent.getD 0)

/-! ### Powers of ten -/

/-- The largest power of ten that is a finite number of 64 bits. -/
def maxPower : Nat := 308

/-- A power of ten that is finite. -/
def power (n : Nat) : Float :=
  Float.ofScientific 1 false n

/-- A number times a power of ten, unless that is infinite. -/
def timesPower? (x : Float) (exponent : Int) : Option Float :=
  if x == 0 then some x
  else if maxPower < exponent then none
  else if 0 ≤ exponent then (some (x * power exponent.toNat)).filter fun y => !y.isInf
  else if -(maxPower : Int) ≤ exponent then some (x / power (-exponent).toNat)
  else timesPower? (x / power maxPower) (exponent + maxPower)
termination_by (-exponent).toNat
decreasing_by simp only [maxPower] at *; omega

namespace Number

/-- The number with 64 bits. -/
def toFloat? (n : Number) : Option Float :=
  let (significand, exponent) := n.scaled
  (timesPower? significand.toUInt64.toFloat exponent).map fun x => if n.negative then -x else x

/-- The bits of the number with 64 bits. -/
def toBits64? (n : Number) : Option UInt64 :=
  n.toFloat?.map Float.toBits

/-- Is the number an integer that a 64-bit word holds? -/
def isWord (n : Number) : Bool :=
  match n.toInt? with
  | some i => -2 ^ 63 ≤ i && i < 2 ^ 64
  | none => false

/-- The number with 32 bits. An integer that a word holds is rounded once, any other number first
to 64 bits. -/
def toFloat32? (n : Number) : Option Float32 :=
  if n.isWord then
    let x := n.whole.toUInt64.toFloat32
    some (if n.negative then -x else x)
  else n.toFloat?.map Float.toFloat32

/-- The bits of the number with 32 bits. -/
def toBits32? (n : Number) : Option UInt32 :=
  n.toFloat32?.map Float32.toBits

end Number

end DocStore.Json
