import DocStore.Zstd.Huffman

/-!
# Streams of symbols

The symbols of a Huffman code are written in one stream or in four, and each stream is read
downwards from its last byte. A stream by itself has to end with its last symbol. Four streams that
are long enough are read side by side, as four lanes; a lane is only stopped by the number of its
symbols. It may leave bits unread, and it may go on below its stream, into the bytes of the stream
before it, as far as the start of all of them.
-/

namespace DocStore.Zstd

namespace HuffmanTable

/-! ### A stream by itself -/

/-- Decode the last symbol of a stream with a table of pairs. If a pair is found, the bits of its
second symbol belong to the first one, as far as there are any. When all bits have been read, the
first eight bytes of the stream are looked at once more. -/
def decodeLast (t : HuffmanTable) (b : DownwardBits) : UInt8 × DownwardBits :=
  let e := t.entry (if b.left = 0 then bitsAt b.data (64 - t.log) t.log else b.peek t.log)
  match e.following with
  | none => (e.symbol, b.skip e.bits)
  | some _ => (e.symbol, b.skip (min e.bits b.left))

/-- Decode `count` symbols after those in `out`. -/
def decodeSymbols (t : HuffmanTable) : (count : Nat) → DownwardBits → (out : Array UInt8) →
    DownwardBits × Array UInt8
  | 0, b, out => (b, out)
  | 1, b, out =>
    if t.paired then
      let (symbol, b) := t.decodeLast b
      (b, out.push symbol)
    else
      let e := t.entry (b.peek t.log)
      (b.skip e.bits, out.push e.symbol)
  | count + 2, b, out =>
    let e := t.entry (b.peek t.log)
    match e.following with
    | none => t.decodeSymbols (count + 1) (b.skip e.bits) (out.push e.symbol)
    | some symbol => t.decodeSymbols count (b.skip e.bits) ((out.push e.symbol).push symbol)

/-- Decode a stream of `count` symbols, which has to fill `data`. -/
def decodeStream (t : HuffmanTable) (data : Array UInt8) (count : Nat) (out : Array UInt8) :
    Option (Array UInt8) := do
  let b ← DownwardBits.ofArray? data
  let (b, out) := t.decodeSymbols count b out
  if b.isDone then some out else none

end HuffmanTable

/-! ### Lanes -/

/-- Eight bytes of a stream, of which the bits from the highest on are used first. -/
structure Lane where
  /-- The offset of the eight bytes. -/
  place : Nat
  word : UInt64
  /-- How many bits have been used. This may be more than there are; then they are used again from
  the highest on. -/
  used : Nat
  /-- How many symbols are still to be decoded. -/
  wanted : Nat
  out : Array UInt8
  deriving Repr

/-- The eight bytes from `place` on, lowest first. -/
def wordAt (data : Array UInt8) (place : Nat) : UInt64 :=
  (List.range 8).foldr (fun i word => word * 256 + (data[place + i]?.getD 0).toUInt64) 0

namespace Lane

/-- The lane of a stream of `wanted` symbols that ends at `stop`. -/
def ofStop (data : Array UInt8) (stop wanted : Nat) : Lane :=
  let last := data[stop - 1]?.getD 0
  { place := stop - 8
    word := wordAt data (stop - 8)
    used := if last = 0 then 0 else 8 - last.toNat.log2
    wanted
    out := #[] }

/-- What the next bits decode. -/
def entry (t : HuffmanTable) (l : Lane) : HuffmanEntry :=
  t.entry ((l.word <<< UInt64.ofNat l.used) >>> UInt64.ofNat (64 - t.log)).toNat

/-- Decode what the next bits say. -/
def step (t : HuffmanTable) (l : Lane) : Lane :=
  let e := l.entry t
  { l with used := l.used + e.bits, wanted := l.wanted - e.symbols, out := e.append l.out }

/-- Decode `count` times. -/
def steps (t : HuffmanTable) : (count : Nat) → Lane → Lane
  | 0, l => l
  | count + 1, l => steps t count (l.step t)

/-- Give up `count` bytes of which all bits have been used, for as many below. -/
def descend (data : Array UInt8) (count : Nat) (l : Lane) : Lane :=
  { l with place := l.place - count, word := wordAt data (l.place - count),
           used := l.used - 8 * count }

/-- Decode five times, and give up the bytes that have been used. -/
def round (t : HuffmanTable) (data : Array UInt8) (l : Lane) : Lane :=
  let l := l.steps t 5
  l.descend data (l.used / 8)

/-- Give up the bytes that have been used, as far as there are bytes below. Answers whether there
were enough. -/
def refill (data : Array UInt8) (l : Lane) : Bool × Lane :=
  let count := l.used / 8
  if 64 < l.used ∨ l.place = 0 then (false, l)
  else (decide (count ≤ l.place), l.descend data (min count l.place))

/-- Decode one symbol at a time: four in a row while there are bytes below, and then the rest. -/
def finishSingle (t : HuffmanTable) (data : Array UInt8) : (fuel : Nat) → Lane → Lane
  | 0, l => l
  | fuel + 1, l =>
    let (isFull, l) := l.refill data
    if isFull ∧ 3 < l.wanted then finishSingle t data fuel (l.steps t 4)
    else l.steps t l.wanted

/-- Decode while two symbols are wanted. -/
def stepsPaired (t : HuffmanTable) : (fuel : Nat) → Lane → Lane
  | 0, l => l
  | fuel + 1, l => if 2 ≤ l.wanted then stepsPaired t fuel (l.step t) else l

/-- Decode while two symbols are wanted and there are bytes below, which are fetched before each
step. -/
def refillsPaired (t : HuffmanTable) (data : Array UInt8) : (fuel : Nat) → Lane → Lane
  | 0, l => l
  | fuel + 1, l =>
    let (isFull, l) := l.refill data
    if isFull ∧ 2 ≤ l.wanted then refillsPaired t data fuel (l.step t) else l

/-- Decode up to two symbols at a time: five times in a row while there are bytes below, then with
a look for bytes below before each step, and then the rest. Of the last pair only one symbol may be
wanted. -/
def finishPaired (t : HuffmanTable) (data : Array UInt8) : (fuel : Nat) → Lane → Lane
  | 0, l => l
  | fuel + 1, l =>
    let (isFull, l) := l.refill data
    if isFull ∧ 9 < l.wanted then finishPaired t data fuel (l.steps t 5)
    else
      let l := if 2 ≤ l.wanted then l.refillsPaired t data l.wanted else l
      let l := l.stepsPaired t l.wanted
      if l.wanted = 0 then l
      else { l with wanted := 0, out := l.out.push (l.entry t).symbol }

/-- The symbols of a lane whose stream begins at `start`, unless the lane is already more than
eight bytes below its stream. -/
def finish (t : HuffmanTable) (data : Array UInt8) (start : Nat) (l : Lane) :
    Option (Array UInt8) :=
  if l.place + 8 < start then none
  else
    let l := if t.paired then l.finishPaired t data l.wanted.succ
      else l.finishSingle t data l.wanted.succ
    some l.out

end Lane

/-- Four lanes. -/
structure Lanes where
  first : Lane
  second : Lane
  third : Lane
  fourth : Lane
  deriving Repr

namespace Lanes

/-- Do the same to all lanes. -/
def map (f : Lane → Lane) (l : Lanes) : Lanes :=
  ⟨f l.first, f l.second, f l.third, f l.fourth⟩

/-- How many rounds are safe for all lanes. A round takes up to seven bytes and produces five
symbols, or with pairs up to ten. -/
def safeRounds (t : HuffmanTable) (l : Lanes) : Nat :=
  let bytes := l.first.place / 7
  if t.paired then
    min bytes (min (min (l.first.wanted / 10) (l.second.wanted / 10))
      (min (l.third.wanted / 10) (l.fourth.wanted / 10)))
  else min bytes (l.fourth.wanted / 5)

/-- Do the lanes stand in the order of their streams? -/
def inOrder (l : Lanes) : Bool :=
  l.first.place ≤ l.second.place && l.second.place ≤ l.third.place &&
    l.third.place ≤ l.fourth.place

/-- Rounds of all lanes until no more than `left` symbols of the fourth are wanted. -/
def rounds (t : HuffmanTable) (data : Array UInt8) (left : Nat) : (fuel : Nat) → Lanes → Lanes
  | 0, l => l
  | fuel + 1, l =>
    if l.fourth.wanted ≤ left then l else rounds t data left fuel (l.map (Lane.round t data))

/-- Rounds of all lanes while some are safe and the lanes are in order. -/
def run (t : HuffmanTable) (data : Array UInt8) : (fuel : Nat) → Lanes → Lanes
  | 0, l => l
  | fuel + 1, l =>
    let count := l.safeRounds t
    if count = 0 ∨ !l.inOrder then l
    else run t data fuel (l.rounds t data (l.fourth.wanted - 5 * count) count)

end Lanes

/-! ### Four streams -/

namespace HuffmanTable

/-- Decode four streams of together `count` symbols. The lengths of the first three come first. -/
def decodeFourStreams (t : HuffmanTable) (data : Array UInt8) (count : Nat) :
    Option (Array UInt8) := do
  let size1 := littleEndianAt data 0 2
  let size2 := littleEndianAt data 2 2
  let size3 := littleEndianAt data 4 2
  let start2 := 6 + size1
  let start3 := start2 + size2
  let start4 := start3 + size3
  let part := (count + 3) / 4
  let last := count - 3 * part
  if data.size < 10 ∨ data.size < start4 ∨ count < 6 ∨ count < 3 * part then none
  else if t.log = usualLog ∧ 8 ≤ size1 ∧ 8 ≤ size2 ∧ 8 ≤ size3 ∧ 8 ≤ data.size - start4 ∧
      0 < last then
    let lanes : Lanes :=
      ⟨.ofStop data start2 part, .ofStop data start3 part, .ofStop data start4 part,
        .ofStop data data.size last⟩
    let lanes := lanes.run t data count
    let out1 ← lanes.first.finish t data 6
    let out2 ← lanes.second.finish t data start2
    let out3 ← lanes.third.finish t data start3
    let out4 ← lanes.fourth.finish t data start4
    some (out1 ++ out2 ++ out3 ++ out4)
  else
    let out ← t.decodeStream (data.extract 6 start2) part #[]
    let out ← t.decodeStream (data.extract start2 start3) part out
    let out ← t.decodeStream (data.extract start3 start4) part out
    t.decodeStream (data.extract start4 data.size) last out

end HuffmanTable

end DocStore.Zstd
