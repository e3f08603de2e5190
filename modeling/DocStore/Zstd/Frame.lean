import DocStore.Bytes
import DocStore.Zstd.Block
import DocStore.Zstd.XxHash

/-!
# Frames

A frame is a header, a sequence of blocks and perhaps a checksum. The frames here carry no magic
number in front of their header, and use no dictionary.

`decodeFirst` produces the first bytes of a frame. When the header promises no more bytes than are
wanted and the frame is there completely, the frame is decoded as a whole and has to keep its
promise. Otherwise blocks are decoded in order, each as a whole, and what follows is not looked at
once there is a byte beyond those that are wanted. `encodeFrame` writes a frame whose blocks are
not compressed.
-/

namespace DocStore.Zstd

/-! ### Headers -/

/-- The header of a frame. -/
structure FrameHeader where
  windowSize : Nat
  /-- How many bytes the frame says it has. -/
  contentSize : Option Nat
  dictionary : Nat
  hasChecksum : Bool
  deriving Repr

/-- The most bytes that a block of the frame may have. -/
def FrameHeader.blockLimit (h : FrameHeader) : Nat :=
  min h.windowSize maxBlockSize

/-- How the start of a frame can fail to be a header. -/
inductive HeaderFlaw where
  /-- The bytes end inside the header. -/
  | incomplete
  /-- The header is not one that can be decoded. -/
  | invalid
  deriving DecidableEq, Repr

/-- The largest window that any decoder accepts, as a power of two. -/
def maxWindowLog : Nat := 31

/-- Read the header of a frame. Answers it and the bytes after it. -/
def readHeader (bytes : Bytes) : Except HeaderFlaw (FrameHeader × Bytes) :=
  match bytes with
  | [] => .error .incomplete
  | b :: rest =>
    let n := b.toNat
    let single := n / 32 % 2 = 1
    let windowBytes := if single then 0 else 1
    let dictionaryBytes := if n % 4 = 3 then 4 else n % 4
    let contentBytes :=
      match n / 64 with
      | 0 => if single then 1 else 0
      | 1 => 2
      | 2 => 4
      | _ => 8
    let size := windowBytes + dictionaryBytes + contentBytes
    let fields := rest.take size
    if fields.length < size then .error .incomplete
    else
      let window := ofLittleEndian (fields.take windowBytes)
      let windowLog := window / 8 + 10
      let dictionary := ofLittleEndian ((fields.drop windowBytes).take dictionaryBytes)
      let content := ofLittleEndian (fields.drop (windowBytes + dictionaryBytes))
      let content := if contentBytes = 2 then content + 256 else content
      if n / 8 % 2 = 1 ∨ maxWindowLog < windowLog then .error .invalid
      else
        .ok
          ({ windowSize :=
              if single then content else 2 ^ windowLog + 2 ^ windowLog / 8 * (window % 8)
             contentSize := if contentBytes = 0 then none else some content
             dictionary
             hasChecksum := n / 4 % 2 = 1 },
            rest.drop size)

/-! ### Blocks -/

/-- How the bytes of a block are given. -/
inductive BlockType where
  | raw
  | repeated
  | compressed
  | reserved
  deriving DecidableEq, Repr

/-- The header of a block. -/
structure BlockHeader where
  isLast : Bool
  type : BlockType
  /-- How many bytes a raw or repeated block produces, or a compressed one takes. -/
  size : Nat
  deriving DecidableEq, Repr

/-- How many bytes the header of a block takes. -/
def blockHeaderSize : Nat := 3

/-- The header in a word of three bytes. -/
def BlockHeader.ofWord (word : Nat) : BlockHeader where
  isLast := word % 2 = 1
  type :=
    match word / 2 % 4 with
    | 0 => .raw
    | 1 => .repeated
    | 2 => .compressed
    | _ => .reserved
  size := word / 8

/-- How many bytes of the frame follow the header of the block. -/
def BlockHeader.stored (h : BlockHeader) : Nat :=
  match h.type with
  | .repeated => 1
  | _ => h.size

/-- Read the header of a block. Answers it and the bytes after it. -/
def readBlockHeader (bytes : Bytes) : Option (BlockHeader × Bytes) :=
  let word := bytes.take blockHeaderSize
  if word.length < blockHeaderSize then none
  else some (.ofWord (ofLittleEndian word), bytes.drop blockHeaderSize)

/-- All bytes of the frame so far. -/
def FrameState.out (f : FrameState) : Array UInt8 :=
  f.history.out

/-- Append bytes as they are. -/
def FrameState.extend (f : FrameState) (bytes : Array UInt8) : FrameState :=
  { f with history := f.history.append bytes #[] }

/-- Append what a block produces. A compressed block may take `limit` bytes; a block may produce
`room` bytes. -/
def FrameState.append (f : FrameState) (mode : Mode) (limit room : Nat) (h : BlockHeader)
    (stored : Bytes) : Option FrameState :=
  match h.type with
  | .raw => if room < stored.length then none else some (f.extend stored.toArray)
  | .repeated =>
    if room < h.size then none
    else stored.head?.map fun b => f.extend (Array.replicate h.size b)
  | .compressed => f.decodeBlock mode limit room stored.toArray
  | .reserved => none

/-- Does the frame have the size that is promised? -/
def FrameHeader.agrees (h : FrameHeader) (out : Array UInt8) : Bool :=
  match h.contentSize with
  | none => true
  | some size => out.size = size

/-- The low half of the hash of the frame. -/
def checksumOf (out : Array UInt8) : Nat :=
  (XxHash.hash out).toNat % 2 ^ 32

/-! ### Whole frames -/

/-- The bytes after a frame whose blocks begin here, if the frame is there completely. -/
def afterBlocks (hasChecksum : Bool) (bytes : Bytes) : Option Bytes :=
  match _h : bytes with
  | [] => none
  | _ :: _ =>
    match readBlockHeader bytes with
    | none => none
    | some (header, _) =>
      let next := blockHeaderSize + header.stored
      if header.type = .reserved ∨ bytes.length < next then none
      else if header.isLast then
        let size := if hasChecksum then 4 else 0
        if bytes.length < next + size then none else some (bytes.drop (next + size))
      else afterBlocks hasChecksum (bytes.drop next)
termination_by bytes.length
decreasing_by simp only [_h, List.length_drop, List.length_cons, blockHeaderSize]; omega

/-- Decode all blocks of a frame that is there completely, into a place for `capacity` bytes. -/
def decodeBlocks (h : FrameHeader) (capacity : Nat) (f : FrameState) (bytes : Bytes) :
    Option (Array UInt8) :=
  match _h : bytes with
  | [] => none
  | _ :: _ =>
    match readBlockHeader bytes with
    | none => none
    | some (header, content) =>
      match f.append .whole h.blockLimit (capacity - f.out.size) header
          (content.take header.stored) with
      | none => none
      | some f' =>
        if header.isLast then
          let after := content.drop header.stored
          if h.agrees f'.out &&
              (!h.hasChecksum || ofLittleEndian (after.take 4) = checksumOf f'.out) then
            some f'.out
          else none
        else decodeBlocks h capacity f' (bytes.drop (blockHeaderSize + header.stored))
termination_by bytes.length
decreasing_by simp only [_h, List.length_drop, List.length_cons, blockHeaderSize]; omega

/-! ### First bytes of a frame -/

/-- Why the first bytes of a frame cannot be produced. -/
inductive StreamFailure where
  /-- The frame is not well formed. -/
  | malformed
  /-- The bytes end inside the frame. -/
  | cut
  /-- The frame has fewer bytes. -/
  | short
  deriving DecidableEq, Repr

/-- The bytes that are wanted, if there are so many, or else the given failure. -/
def settle (wanted : Nat) (out : Array UInt8) (otherwise : StreamFailure) :
    Except StreamFailure Bytes :=
  if wanted ≤ out.size then .ok (out.toList.take wanted) else .error otherwise

/-- The outcome at the end of the last block. -/
def finishStream (h : FrameHeader) (wanted : Nat) (out : Array UInt8) (rest : Bytes) :
    Except StreamFailure Bytes :=
  if wanted < out.size ∨ !h.hasChecksum then settle wanted out .short
  else
    let word := rest.take 4
    if word.length < 4 then settle wanted out .cut
    else if ofLittleEndian word ≠ checksumOf out then .error .malformed
    else settle wanted out .short

/-- The smallest window that is reckoned with when blocks are decoded one by one. -/
def minStreamWindow : Nat := 1024

/-- The size of the buffer for blocks that are decoded one by one, unless the frame is known to be
smaller: a window, two blocks and a margin. -/
def FrameHeader.bufferSize (h : FrameHeader) : Nat :=
  max h.windowSize minStreamWindow + 2 * h.blockLimit + 64

/-- Does the buffer hold the whole frame? -/
def FrameHeader.fitsBuffer (h : FrameHeader) : Bool :=
  h.contentSize.any (· ≤ h.bufferSize)

/-- Begin the buffer anew, if another block might not fit behind the bytes that are there. -/
def FrameState.makeRoom (f : FrameState) (h : FrameHeader) : FrameState :=
  if !h.fitsBuffer ∧ h.bufferSize < f.out.size - f.history.lap + h.blockLimit then
    { f with history := f.history.restart }
  else f

/-- Decode blocks until there are more than `wanted` bytes or the frame ends. -/
def streamBlocks (h : FrameHeader) (wanted : Nat) (f : FrameState) (bytes : Bytes) :
    Except StreamFailure Bytes :=
  match _h : bytes with
  | [] => settle wanted f.out .cut
  | _ :: _ =>
    match readBlockHeader bytes with
    | none => settle wanted f.out .cut
    | some (header, content) =>
      if header.type = .reserved ∨ h.blockLimit < header.stored then .error .malformed
      else
        let stored := content.take header.stored
        let after := content.drop header.stored
        if header.stored = 0 then
          if header.isLast then finishStream h wanted f.out after
          else streamBlocks h wanted f (bytes.drop (blockHeaderSize + header.stored))
        else
          let isCut := decide (stored.length < header.stored)
          if isCut ∧ (header.type ≠ .raw ∨ stored.isEmpty) then settle wanted f.out .cut
          else
            match f.append .streamed h.blockLimit h.blockLimit header stored with
            | none => .error .malformed
            | some f' =>
              if h.fitsBuffer ∧ h.contentSize.any (· < f'.out.size) then .error .malformed
              else if isCut then settle wanted f'.out .cut
              else if header.isLast then
                if h.agrees f'.out then finishStream h wanted f'.out after
                else .error .malformed
              else if wanted < f'.out.size then settle wanted f'.out .cut
              else
                streamBlocks h wanted (f'.makeRoom h)
                  (bytes.drop (blockHeaderSize + header.stored))
termination_by bytes.length
decreasing_by
  all_goals (simp only [_h, List.length_drop, List.length_cons, blockHeaderSize]; omega)

/-- The largest window that is decoded block by block. -/
def maxStreamWindow : Nat := 2 ^ 21

/-- Produce the first `wanted` bytes of the frame that begins `bytes`. -/
def decodeFirst (wanted : Nat) (bytes : Bytes) : Except StreamFailure Bytes :=
  match readHeader bytes with
  | .error .incomplete => .error .cut
  | .error .invalid => .error .malformed
  | .ok (h, rest) =>
    if h.contentSize.any (· ≤ wanted) ∧ (afterBlocks h.hasChecksum rest).isSome then
      if h.dictionary ≠ 0 then .error .malformed
      else
        match decodeBlocks h wanted .initial rest with
        | none => .error .malformed
        | some out => settle wanted out .short
    else if h.dictionary ≠ 0 ∨ maxStreamWindow < h.windowSize then .error .malformed
    else streamBlocks h wanted .initial rest

/-! ### Writing frames -/

/-- The window of the frames that are written, as a power of two. -/
def windowLog : Nat := 17

/-- The blocks of some bytes, each a raw block of at most `2 ^ windowLog` of them. -/
def encodeBlocks (bytes : Bytes) : Bytes :=
  if bytes.length ≤ 2 ^ windowLog then
    littleEndian blockHeaderSize (bytes.length * 8 + 1) ++ bytes
  else
    littleEndian blockHeaderSize (2 ^ windowLog * 8) ++ bytes.take (2 ^ windowLog) ++
      encodeBlocks (bytes.drop (2 ^ windowLog))
termination_by bytes.length
decreasing_by
  have := Nat.two_pow_pos windowLog
  simp only [List.length_drop]
  omega

/-- A frame of some bytes. -/
def encodeFrame (bytes : Bytes) : Bytes :=
  [0, UInt8.ofNat ((windowLog - 10) * 8)] ++ encodeBlocks bytes

end DocStore.Zstd
