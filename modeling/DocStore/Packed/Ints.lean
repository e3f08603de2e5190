import DocStore.Packed.Packer
import DocStore.Packed.Unpacker
import DocStore.VarInt

/-!
# The array rule

How a chunk keeps a list of 32-bit numbers whose length is known from elsewhere: a single number is
written as it is; numbers that are all equal are written once, after a zero; any others are packed
in the fewest bits that hold them all, after that number of bits. There is no form for the empty
list.
-/

namespace DocStore.Packed

/-- The bytes of a list of 32-bit numbers, which must not be empty. -/
def encodeInts : List Nat → Except Violation Bytes
  | [] => .error .emptyList
  | [value] => .ok (VarInt.encode value)
  | value :: values =>
    if values.all (· == value) then .ok (VarInt.encode 0 ++ VarInt.encode value)
    else
      let width := widthOf (value :: values)
      .ok (VarInt.encode width.bits ++ pack width (value :: values))

/-- A source, and a list that is filled from it. -/
structure Filling (σ : Type) where
  source : σ
  values : Array Nat
  deriving DecidableEq, Repr

variable {σ : Type}

namespace Filling

/-- Use a step on the source. -/
def onSource {ε α : Type} (x : Step σ ε α) : Step (Filling σ) ε α :=
  Step.focus Filling.source (fun source s => { s with source }) x

/-- Change the list. -/
def update {ε : Type} (f : Array Nat → Array Nat) : Step (Filling σ) ε Unit :=
  Step.modify fun s => { s with values := f s.values }

end Filling

variable [Source σ]

/-- Read `count` packed values, and add each to the list when it is there. -/
def readValues : (count : Nat) → Unpacker → Step (Filling σ) (Stop Error) Unit
  | 0, _, s => (.ok (), s)
  | count + 1, u, s =>
    match u.next s.source with
    | (.ok (value, u'), source) => readValues count u' ⟨source, s.values.push value⟩
    | (.error fault, source) => (.error (.failed (.io fault)), { s with source })

/-- Read a list of `count` numbers, one at least, of the file `resource`, in the place of the
numbers that are there. A list that cannot be read to its end is left as far as it came. -/
def readInts (resource : String) (count : Nat) : Step (Filling σ) (Stop Error) Unit := do
  Step.require (0 < count) .emptyList
  Filling.update fun _ => #[]
  if count = 1 then
    let value ← (Filling.onSource VarInt.vint).io
    Filling.update (·.push value)
  else
    let bits ← (Filling.onSource VarInt.vint).io
    if bits = 0 then
      let value ← (Filling.onSource VarInt.vint).io
      Filling.update fun _ => Array.replicate count value
    else if 31 < bits then Step.throw (.corrupt resource (.bitsPerValue bits))
    else
      let u ← Step.ofChecked (Unpacker.new count bits)
      readValues count u

end DocStore.Packed
