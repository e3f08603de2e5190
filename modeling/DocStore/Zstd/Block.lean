import DocStore.Zstd.History
import DocStore.Zstd.Streams

/-!
# Compressed blocks

A compressed block is a section of literals followed by a section of sequences. A sequence copies
some literals and then repeats bytes from further back in the frame. Tables, Huffman codes and the
last three offsets are remembered from block to block, since a block may use those of the one
before it.

Decoding is total: `none` stands for any block that is not well formed.
-/

namespace DocStore.Zstd

/-- The most bytes that a block may have. -/
def maxBlockSize : Nat := 131072

/-- The distances used last, latest first. -/
structure Offsets where
  first : Nat
  second : Nat
  third : Nat
  deriving Repr

/-- What is known of a frame between two blocks. -/
structure FrameState where
  history : History
  /-- Where literals are put that are not used in place. -/
  scratch : Array UInt8
  huffman : Option HuffmanTable
  literalLengths : Option FseTable
  offsetCodes : Option FseTable
  matchLengths : Option FseTable
  offsets : Offsets
  deriving Repr

/-- A frame of which nothing is known. -/
def FrameState.initial : FrameState :=
  ⟨.empty, #[], none, none, none, none, ⟨1, 4, 8⟩⟩

/-! ### Literals -/

/-- A section of literals. -/
structure Literals where
  symbols : Array UInt8
  /-- The Huffman code to remember. -/
  huffman : Option HuffmanTable
  /-- The length of the section. -/
  size : Nat
  /-- Are the literals used where they stand in the block? -/
  inPlace : Bool
  deriving Repr

/-- Read the section of literals of a block of at most `limit` bytes. -/
def readLiterals (limit : Nat) (huffman : Option HuffmanTable) (data : Array UInt8) :
    Option Literals := do
  let b ← data[0]?
  let form := b.toNat / 4 % 4
  if b.toNat % 4 < 2 then
    let (headerSize, count) :=
      if form % 2 = 0 then (1, b.toNat / 8)
      else if form = 1 then (2, littleEndianAt data 0 2 / 16)
      else (3, littleEndianAt data 0 3 / 16)
    if limit < count then none
    else if b.toNat % 4 = 0 then
      let size := headerSize + count
      if data.size < size then none
      else
        some
          { symbols := data.extract headerSize size, huffman, size
            inPlace := size + copyMargin ≤ data.size }
    else
      let repeated ← data[headerSize]?
      some
        { symbols := Array.replicate count repeated, huffman, size := headerSize + 1
          inPlace := false }
  else
    let (headerSize, width) := if form < 2 then (3, 10) else if form = 2 then (4, 14) else (5, 18)
    let header := littleEndianAt data 0 headerSize
    let count := header / 16 % 2 ^ width
    let size := header / 2 ^ (4 + width) % 2 ^ width
    if data.size < 5 ∨ limit < count ∨ data.size < headerSize + size then none
    else
      let coded := data.extract headerSize (headerSize + size)
      let (table, used) ←
        if b.toNat % 4 = 2 then
          (HuffmanTable.read? coded).map fun (table, used) =>
            (if form ≠ 0 ∧ prefersPairs count size then table.withPairs else table, used)
        else huffman.map fun table => (table, 0)
      let streams := coded.extract used coded.size
      let symbols ←
        if form = 0 then table.decodeStream streams count #[]
        else table.decodeFourStreams streams count
      some { symbols, huffman := some table, size := headerSize + size, inPlace := false }

/-! ### Codes of lengths -/

/-- The least literal length of each code, and how many bits are added to it. -/
def literalLengthCodes : Array (Nat × Nat) :=
  ((List.range 16).map fun n => (n, 0)).toArray ++
    #[(16, 1), (18, 1), (20, 1), (22, 1), (24, 2), (28, 2), (32, 3), (40, 3), (48, 4), (64, 6),
      (128, 7), (256, 8), (512, 9), (1024, 10), (2048, 11), (4096, 12), (8192, 13), (16384, 14),
      (32768, 15), (65536, 16)]

/-- The least match length of each code, and how many bits are added to it. -/
def matchLengthCodes : Array (Nat × Nat) :=
  ((List.range 32).map fun n => (n + 3, 0)).toArray ++
    #[(35, 1), (37, 1), (39, 1), (41, 1), (43, 2), (47, 2), (51, 3), (59, 3), (67, 4), (83, 4),
      (99, 5), (131, 7), (259, 8), (515, 9), (1027, 10), (2051, 11), (4099, 12), (8195, 13),
      (16387, 14), (32771, 15), (65539, 16)]

/-- The distribution of literal length codes that is used when none is described. -/
def defaultLiteralLengths : Distribution :=
  ⟨6, [4, 3, 2, 2, 2, 2, 2, 2, 2, 2, 2, 2, 2, 1, 1, 1, 2, 2, 2, 2, 2, 2, 2, 2, 2, 3, 2, 1, 1, 1,
    1, 1, -1, -1, -1, -1]⟩

/-- The distribution of offset codes that is used when none is described. -/
def defaultOffsetCodes : Distribution :=
  ⟨5, [1, 1, 1, 1, 1, 1, 2, 2, 2, 1, 1, 1, 1, 1, 1, 1, 1, 1, 1, 1, 1, 1, 1, 1, -1, -1, -1, -1,
    -1]⟩

/-- The distribution of match length codes that is used when none is described. -/
def defaultMatchLengths : Distribution :=
  ⟨6, [1, 4, 3, 2, 2, 2, 2, 2, 2, 1, 1, 1, 1, 1, 1, 1, 1, 1, 1, 1, 1, 1, 1, 1, 1, 1, 1, 1, 1, 1,
    1, 1, 1, 1, 1, 1, 1, 1, 1, 1, 1, 1, 1, 1, 1, 1, -1, -1, -1, -1, -1, -1, -1]⟩

/-- Read the table of one kind of code as `mode` says. Answers the table and how many bytes its
description takes. -/
def readTable (mode maxAccuracy maxSymbol : Nat) (default : Distribution)
    (previous : Option FseTable) (data : Array UInt8) : Option (FseTable × Nat) :=
  match mode with
  | 0 => some (FseTable.ofDistribution default, 0)
  | 1 => do
    let b ← data[0]?
    if maxSymbol < b.toNat then none else some (FseTable.single b.toNat, 1)
  | 2 => do
    let (distribution, size) ← readDistribution maxAccuracy maxSymbol data
    some (FseTable.ofDistribution distribution, size)
  | _ => previous.map fun table => (table, 0)

/-! ### Sequences -/

/-- Copies `literals` literals, and then `length` bytes from `distance` bytes back. -/
structure Sequence where
  literals : Nat
  length : Nat
  distance : Nat
  deriving Repr

/-- The distance that an offset value means after `literals` literals, and the distances to
remember. Values up to three name one of the last distances. -/
def resolveOffset (value literals : Nat) (o : Offsets) : Nat × Offsets :=
  if 3 < value then (value - 3, ⟨value - 3, o.first, o.second⟩)
  else
    let index := if literals = 0 then value + 1 else value
    match index with
    | 1 => (o.first, o)
    | 2 => (o.second, ⟨o.second, o.first, o.third⟩)
    | 3 => (o.third, ⟨o.third, o.first, o.second⟩)
    | _ => (o.first - 1, ⟨o.first - 1, o.first, o.second⟩)

/-- The three tables of a block. -/
structure SequenceTables where
  literalLengths : FseTable
  offsetCodes : FseTable
  matchLengths : FseTable
  deriving Repr

/-- The states of the three decoders, and the bits they read. -/
structure SequenceStates where
  literalLength : Nat
  offsetCode : Nat
  matchLength : Nat
  bits : DownwardBits
  deriving Repr

/-- Read the first states. -/
def SequenceTables.start (t : SequenceTables) (bits : DownwardBits) : SequenceStates :=
  let (literalLength, bits) := t.literalLengths.start bits
  let (offsetCode, bits) := t.offsetCodes.start bits
  let (matchLength, bits) := t.matchLengths.start bits
  { literalLength, offsetCode, matchLength, bits }

/-- Read the states after these. -/
def SequenceTables.next (t : SequenceTables) (s : SequenceStates) : SequenceStates :=
  let (literalLength, bits) := t.literalLengths.next s.literalLength s.bits
  let (matchLength, bits) := t.matchLengths.next s.matchLength bits
  let (offsetCode, bits) := t.offsetCodes.next s.offsetCode bits
  { literalLength, offsetCode, matchLength, bits }

/-- Decode the sequence that the states stand for. -/
def SequenceTables.decode (t : SequenceTables) (s : SequenceStates) (o : Offsets) :
    Sequence × Offsets × SequenceStates :=
  let offsetCode := (t.offsetCodes.entry s.offsetCode).symbol
  let (lengthBase, lengthBits) :=
    matchLengthCodes[(t.matchLengths.entry s.matchLength).symbol]?.getD (0, 0)
  let (literalBase, literalBits) :=
    literalLengthCodes[(t.literalLengths.entry s.literalLength).symbol]?.getD (0, 0)
  let (offsetExtra, bits) := s.bits.read offsetCode
  let (lengthExtra, bits) := bits.read lengthBits
  let (literalExtra, bits) := bits.read literalBits
  let literals := literalBase + literalExtra
  let (distance, o) := resolveOffset (2 ^ offsetCode + offsetExtra) literals o
  (⟨literals, lengthBase + lengthExtra, distance⟩, o, { s with bits })

/-- The literals of a block, and what lies behind them. -/
structure LiteralSource where
  bytes : Array UInt8
  count : Nat
  deriving Repr

/-- A block being carried out. -/
structure Execution where
  history : History
  /-- How many literals have been used. -/
  used : Nat
  deriving Repr

/-- Carry out a sequence. The frame may grow to `limit` bytes. -/
def Sequence.run (q : Sequence) (l : LiteralSource) (limit : Nat) (x : Execution) :
    Option Execution :=
  let used := x.used + q.literals
  let size := x.history.size + q.literals
  if l.count < used ∨ limit < size + q.length then none
  else
    let h := x.history.append (l.bytes.extract x.used used)
      (l.bytes.extract used (x.used + literalRun q.literals))
    if h.reaches q.distance then some ⟨h.repetition q.distance q.length, used⟩ else none

/-- Decode and carry out `count` sequences. -/
def runSequences (t : SequenceTables) (l : LiteralSource) (limit : Nat) :
    (count : Nat) → SequenceStates → Offsets → Execution →
    Option (SequenceStates × Offsets × Execution)
  | 0, s, o, x => some (s, o, x)
  | count + 1, s, o, x =>
    let (q, o, s) := t.decode s o
    match q.run l limit x with
    | none => none
    | some x =>
      let s := if count = 0 then s else t.next s
      runSequences t l limit count s o x

/-- The number of sequences at the start of their section, and the bytes it takes. -/
def readSequenceCount (data : Array UInt8) : Option (Nat × Nat) := do
  let b ← data[0]?
  let n := b.toNat
  if n < 128 then some (n, 1)
  else if n < 255 then
    if data.size < 2 then none else some ((n - 128) * 256 + littleEndianAt data 1 1, 2)
  else if data.size < 3 then none
  else some (littleEndianAt data 1 2 + 0x7F00, 3)

/-- How a frame is decoded. -/
inductive Mode where
  /-- As a whole, into its final place. -/
  | whole
  /-- Block by block, through a buffer. -/
  | streamed
  deriving DecidableEq, Repr

/-- How many bytes a block of at most `limit` bytes may produce where there is room for `room`
bytes. Literals that are not used in place are kept behind the largest block, if they and two
margins fit there, and the block may not run into them. -/
def blockRoom (mode : Mode) (limit room : Nat) (l : Literals) : Nat :=
  if mode = .whole ∧ !l.inPlace ∧ limit + l.symbols.size + 2 * copyMargin < room then
    limit + copyMargin
  else room

/-- The literals of a block together with what lies behind them, and where literals are put that are
not used in place. There the new ones have replaced the first of those from before. -/
def placeLiterals (l : Literals) (data scratch : Array UInt8) : LiteralSource × Array UInt8 :=
  let count := l.symbols.size
  if l.inPlace then (⟨l.symbols ++ data.extract l.size (l.size + copyMargin), count⟩, scratch)
  else
    let known := max scratch.size (count + copyMargin)
    let scratch := l.symbols ++ scratch.extract count scratch.size
    let scratch := scratch ++ Array.replicate (known - scratch.size) 0
    (⟨scratch, count⟩, scratch)

/-- Decode a compressed block, which may take `limit` bytes and produce `room`. -/
def FrameState.decodeBlock (f : FrameState) (mode : Mode) (limit room : Nat)
    (data : Array UInt8) : Option FrameState := do
  guard (2 ≤ data.size ∧ data.size ≤ limit)
  let l ← readLiterals (min limit room) f.huffman data
  let (source, scratch) := placeLiterals l data f.scratch
  let limitSize := f.history.size + blockRoom mode limit room l
  let data := data.extract l.size data.size
  let (count, used) ← readSequenceCount data
  if count = 0 then
    if data.size ≠ used then none
    else
      some { f with history := f.history.append l.symbols #[], scratch, huffman := l.huffman }
  else
    let modes ← data[used]?
    let m := modes.toNat
    guard (m % 4 = 0)
    let data := data.extract (used + 1) data.size
    let (literalLengths, n) ← readTable (m / 64) 9 35 defaultLiteralLengths f.literalLengths data
    let data := data.extract n data.size
    let (offsetCodes, n) ← readTable (m / 16 % 4) 8 31 defaultOffsetCodes f.offsetCodes data
    let data := data.extract n data.size
    let (matchLengths, n) ← readTable (m / 4 % 4) 9 52 defaultMatchLengths f.matchLengths data
    let data := data.extract n data.size
    let tables : SequenceTables := { literalLengths, offsetCodes, matchLengths }
    let bits ← DownwardBits.ofArray? data
    let start : Execution := ⟨f.history, 0⟩
    let (s, offsets, x) ←
      runSequences tables source limitSize count (tables.start bits) f.offsets start
    let history := x.history.append (l.symbols.extract x.used l.symbols.size) #[]
    guard (s.bits.isDone ∧ history.size ≤ limitSize)
    some
      { history, scratch, huffman := l.huffman, literalLengths := some literalLengths
        offsetCodes := some offsetCodes, matchLengths := some matchLengths, offsets }

end DocStore.Zstd
