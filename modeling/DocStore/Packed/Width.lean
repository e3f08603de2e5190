import DocStore.Error

/-!
# Bit widths of packed arrays

A packed array keeps its values in a fixed number of bits each, from 1 to 64, back to back. The
array does not say how many values it has nor how wide they are: both come from the data around it.
-/

namespace DocStore.Packed

/-- A number of bits that a packed value may have. -/
structure Width where
  bits : Nat
  one_le : 1 ≤ bits := by omega
  le_word : bits ≤ 64 := by omega
  deriving DecidableEq, Repr

/-- The width of so many bits, if values may have it. -/
def Width.check (bits : Nat) : Except Violation Width :=
  if h : 1 ≤ bits ∧ bits ≤ 64 then .ok ⟨bits, h.1, h.2⟩ else .error (.bitWidth bits)

/-- The fewest bits, one at least, that hold every number up to `maxValue`. -/
def bitsRequired (maxValue : Nat) : Nat :=
  maxValue.log2 + 1

/-- The largest value of so many bits, for words of 64 bits. -/
def maxValue (bits : Nat) : Nat :=
  2 ^ min bits 64 - 1

/-- The bytes that `count` values of `bits` bits take. -/
def byteCount (count bits : Nat) : Nat :=
  (count * bits + 7) / 8

/-- The narrowest width that holds every one of the values, if they are words of 64 bits. -/
def widthOf (values : List Nat) : Width :=
  ⟨min (bitsRequired (values.foldl (· ||| ·) 0)) 64,
    by simp only [bitsRequired]; omega, by omega⟩

/-- The oldest and the newest layout of packed data that can be read. -/
def oldestVersion : Nat := 0
@[inherit_doc oldestVersion]
def newestVersion : Nat := 1

/-- Refuse a layout that is not known. -/
def checkVersion (resource : String) (version : Nat) : Except Error Unit :=
  if version ≤ newestVersion then .ok ()
  else .error (.unsupportedVersion resource version oldestVersion newestVersion)

end DocStore.Packed
