import DocStore.Cursor

/-!
# Variable-length integers

An unsigned number is written in groups of seven bits, least significant group first; the high bit
of a byte says that another group follows. A signed number is first folded onto the unsigned ones
so that numbers near zero stay short: `0, -1, 1, -2, 2, …` become `0, 1, 2, 3, 4, …`.

`encode` writes the fewest groups that hold a number. The readers accept any number of groups up to
five for 32 bits and ten for 64, of which the last may hold only the bits that are left.
-/

namespace DocStore.VarInt

/-- The groups of `n`. -/
def encode (n : Nat) : Bytes :=
  if n < 128 then [UInt8.ofNat n]
  else UInt8.ofNat (n % 128 + 128) :: encode (n / 128)
termination_by n

/-- How many bytes `encode` takes. -/
def encodedLength (n : Nat) : Nat :=
  if n < 128 then 1 else encodedLength (n / 128) + 1
termination_by n

/-- The unsigned number for a signed one. -/
def zigzag (i : Int) : Nat :=
  if 0 ≤ i then 2 * i.toNat else 2 * (-i).toNat - 1

/-- The signed number for an unsigned one. -/
def unzigzag (n : Nat) : Int :=
  if n % 2 = 0 then (n / 2 : Nat) else -((n / 2 + 1 : Nat) : Int)

/-- The groups of a signed number. -/
def encodeSigned (i : Int) : Bytes :=
  encode (zigzag i)

variable {σ : Type} [Source σ]

/-- Read groups, at most `limit` of them. The last permitted one must not exceed `lastGroup`. -/
def groups (lastGroup : Nat) (tooLarge : Fault) : (limit : Nat) → Step σ Fault Nat
  | 0 => Step.fail tooLarge
  | limit + 1 => do
    let b ← Source.byte
    if limit = 0 ∧ lastGroup < b.toNat then Step.fail tooLarge
    else if b.toNat < 128 then pure b.toNat
    else do
      let high ← groups lastGroup tooLarge limit
      pure (b.toNat % 128 + 128 * high)

/-- Read an unsigned number of 32 bits. -/
def vint : Step σ Fault Nat :=
  groups 0x0F .vintTooLarge 5

/-- Read an unsigned number of 64 bits. -/
def vlong : Step σ Fault Nat :=
  groups 0x01 .vlongTooLarge 10

/-- Read a signed number of 64 bits. -/
def zlong : Step σ Fault Int := do
  let n ← vlong
  pure (unzigzag n)

/-- Read a signed number that has to fit 32 bits. -/
def zint : Step σ Fault Int := do
  let i ← zlong
  if -(2 ^ 31) ≤ i ∧ i < 2 ^ 31 then pure i else Step.fail .zintOutOfRange

end DocStore.VarInt
