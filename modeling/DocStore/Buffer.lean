import DocStore.Bytes
import DocStore.Error

/-!
# Buffers

A buffer collects bytes: those of the documents that wait to become a chunk, or those of a document
that is being read.

The buffer of a chunk knows how much room it has. When that runs out it grows by an eighth, by three
elements at least, and then to a whole number of eight-byte words: appending one element at a time
so costs a bounded number of copies of each. Beyond the length that an array may have no such growth
is computed. A write that begins below that length is taken all the same, however far it goes, and
one that begins above it is taken only into room that is there already.
-/

namespace DocStore

/-- The most elements that an array may have. -/
def maxArrayLength : Nat := 2 ^ 31 - 9

/-- How many elements of `elementSize` bytes to make room for when `minTarget` are needed. -/
def oversize (minTarget elementSize : Nat) : Nat :=
  if minTarget = 0 then 0
  else
    let grown := minTarget + max (minTarget / 8) 3
    if maxArrayLength < grown + 7 then maxArrayLength
    else
      let perWord := match elementSize with
        | 1 => 8
        | 2 => 4
        | 4 => 2
        | _ => 1
      (grown + (perWord - 1)) / perWord * perWord

/-- Room is made for what is needed, or for as much as an array may have. -/
theorem le_oversize (minTarget : Nat) : min minTarget maxArrayLength ≤ oversize minTarget 1 := by
  unfold oversize
  dsimp only
  repeat' split
  all_goals omega

/-- Bytes that have been collected. -/
structure Buffer where
  bytes : Array UInt8
  deriving DecidableEq, Repr

namespace Buffer

/-- The buffer without bytes. -/
def empty : Buffer := ⟨#[]⟩

/-- How many bytes there are. -/
def size (b : Buffer) : Nat :=
  b.bytes.size

/-- Is there no byte? -/
def isEmpty (b : Buffer) : Bool :=
  b.bytes.isEmpty

/-- The bytes in the order in which they came. -/
def toList (b : Buffer) : Bytes :=
  b.bytes.toList

/-- The buffer with more bytes at its end. -/
def append (b : Buffer) (bytes : Bytes) : Buffer :=
  ⟨b.bytes ++ bytes⟩

@[simp] theorem toList_empty : empty.toList = [] := rfl

@[simp] theorem toList_append (b : Buffer) (bytes : Bytes) :
    (b.append bytes).toList = b.toList ++ bytes := by
  simp [append, toList]

theorem append_nil (b : Buffer) : b.append [] = b :=
  congrArg mk (Array.ext' (by simp))

theorem append_append (b : Buffer) (x y : Bytes) : (b.append x).append y = b.append (x ++ y) :=
  congrArg mk (Array.ext' (by simp [append]))

@[simp] theorem length_toList (b : Buffer) : b.toList.length = b.size := by
  simp [toList, size]

@[simp] theorem size_append (b : Buffer) (bytes : Bytes) :
    (b.append bytes).size = b.size + bytes.length := by
  rw [← length_toList, toList_append, List.length_append, length_toList]

end Buffer

/-- The bytes that wait for a chunk, and the room that there is for them. -/
structure ChunkBuffer extends Buffer where
  /-- How many bytes fit before the array has to grow. -/
  capacity : Nat
  deriving DecidableEq, Repr

namespace ChunkBuffer

/-- The buffer for chunks of about so many bytes. -/
def ofChunkSize (chunkSize : Nat) : ChunkBuffer :=
  ⟨.empty, oversize chunkSize 1⟩

/-- The buffer without its bytes. The room for them is kept. -/
def clear (b : ChunkBuffer) : ChunkBuffer :=
  ⟨.empty, b.capacity⟩

/-- How much room there is once `needed` bytes have been put where there was too little. Where what
was reserved for them is not enough, the array doubles at least. -/
def grownCapacity (b : ChunkBuffer) (needed : Nat) : Nat :=
  let reserved := max b.capacity (oversize needed 1)
  if needed ≤ reserved then reserved else max (2 * reserved) needed

/-- Take the bytes of one write. What has to be reserved beyond the bytes that are there may not be
a negative number. -/
def write (bytes : Bytes) (b : ChunkBuffer) : Except Violation ChunkBuffer :=
  let needed := b.size + bytes.length
  if needed ≤ b.capacity then .ok ⟨b.append bytes, b.capacity⟩
  else if oversize needed 1 < b.size then .error .bufferFull
  else .ok ⟨b.append bytes, b.grownCapacity needed⟩

/-- The bytes are put to those that are there, unless these are more than an array may have. -/
theorem write_cases (b : ChunkBuffer) (bytes : Bytes) :
    (∃ b', b.write bytes = .ok b' ∧ b'.toBuffer = b.append bytes) ∨
      (b.write bytes = .error .bufferFull ∧ maxArrayLength < b.size) := by
  unfold write
  dsimp only
  split
  · exact Or.inl ⟨_, rfl, rfl⟩
  · split
    · have hroom := le_oversize (b.size + bytes.length)
      exact Or.inr ⟨rfl, by omega⟩
    · exact Or.inl ⟨_, rfl, rfl⟩

end ChunkBuffer

end DocStore
