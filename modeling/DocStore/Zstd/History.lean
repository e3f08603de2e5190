/-!
# What repetitions reach

A frame is produced from its start to its end, and a sequence may repeat bytes that were produced
before. They are kept in a buffer. When the buffer is full it is filled from its start again, over
the bytes that were there, so a distance may lead to bytes of the lap before.

Copies move several bytes at a time and run past their end. What they leave there, the spill, is
overwritten by what follows in the frame. But until then it lies over the bytes of the lap before,
and a repetition that reads these finds it.
-/

namespace DocStore.Zstd

/-! ### How far copies run -/

/-- How many bytes a copy moves at once. -/
def copyStep : Nat := 16

/-- How many bytes a copy may run past its end. -/
def copyMargin : Nat := 2 * copyStep

/-- `n` or the next larger multiple of `step`. -/
def roundUp (n step : Nat) : Nat :=
  (n + (step - 1)) / step * step

/-- How many bytes are moved to copy `length` of them: one step, and then two at a time. -/
def strideOver (length : Nat) : Nat :=
  copyStep + if length ≤ copyStep then 0 else roundUp (length - copyStep) (2 * copyStep)

/-- How many bytes are moved to copy `length` literals: one step, and then the others. -/
def literalRun (length : Nat) : Nat :=
  copyStep + if length ≤ copyStep then 0 else strideOver (length - copyStep)

/-- How many bytes are moved to repeat `length` of them. If they are less than a step away, half
steps are made. -/
def repetitionRun (distance length : Nat) : Nat :=
  if copyStep ≤ distance then strideOver length else roundUp length (copyStep / 2)

/-! ### The buffer -/

/-- The bytes of a frame so far, and where they lie. -/
structure History where
  /-- All bytes of the frame. -/
  out : Array UInt8
  /-- What lies in the buffer behind them because copies have left it there. -/
  spill : Array UInt8
  /-- Where in the frame the buffer was begun for the last time. -/
  lap : Nat
  /-- Where in the frame it was begun the time before. -/
  previous : Nat
  deriving Repr

namespace History

/-- Nothing. -/
def empty : History :=
  ⟨#[], #[], 0, 0⟩

/-- How many bytes the frame has. -/
def size (h : History) : Nat :=
  h.out.size

/-- Begin the buffer anew. -/
def restart (h : History) : History :=
  { h with spill := #[], lap := h.size, previous := h.lap }

/-- The spill after a copy of `length` bytes that has left `left` behind them. -/
def spillAfter (h : History) (length : Nat) (left : Array UInt8) : Array UInt8 :=
  left ++ h.spill.extract (length + left.size) h.spill.size

/-- Append bytes, with `left` left behind them. -/
def append (h : History) (bytes left : Array UInt8) : History :=
  { h with spill := h.spillAfter bytes.size left, out := h.out ++ bytes }

/-- Does a distance lead to a byte in the buffer? -/
def reaches (h : History) (distance : Nat) : Bool :=
  0 < distance && distance ≤ h.size - h.previous

/-- The byte at a place of the buffer, of which `current` bytes were written since its start. -/
def byteAt (h : History) (current place : Nat) : UInt8 :=
  if place < current then h.out[h.lap + place]?.getD 0
  else
    match h.spill[place - current]? with
    | some b => b
    | none => h.out[h.previous + place]?.getD 0

/-- The first bytes of a repetition, namely those that lie at the end of the buffer and not in what
was written since its start. -/
def beforeLap (h : History) (distance length : Nat) : Array UInt8 :=
  let current := h.size - h.lap
  let place := h.size - h.previous - distance
  ((List.range (min length (distance - current))).map fun i =>
    h.byteAt current (place + i)).toArray

/-- Append `length` bytes, each the one `distance` before the end. -/
def repeatBytes (distance : Nat) : (length : Nat) → (out : Array UInt8) → Array UInt8
  | 0, out => out
  | length + 1, out =>
    repeatBytes distance length (out.push (out[out.size - distance]?.getD 0))

/-- Repeat `length` bytes that lie `distance` back, and not before the start of the buffer. -/
def repeatRecent (h : History) (distance length : Nat) : History :=
  if length = 0 then h
  else
    let stop := h.size + length
    let run := repetitionRun distance length
    let out := repeatBytes distance run h.out
    { h with spill := h.spillAfter length (out.extract stop out.size), out := out.shrink stop }

/-- Repeat `length` bytes that lie `distance` back. -/
def repetition (h : History) (distance length : Nat) : History :=
  let old := h.beforeLap distance length
  (h.append old #[]).repeatRecent distance (length - old.size)

end History

end DocStore.Zstd
