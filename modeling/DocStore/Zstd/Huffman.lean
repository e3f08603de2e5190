import DocStore.Zstd.Fse

/-!
# Huffman-coded literals

A Huffman code is described by the weights of its symbols: a symbol of weight `w` takes
`2 ^ (w - 1)` of the `2 ^ log` places of a table, and weight zero means that it does not occur. The
weight of the last symbol is not written; it fills the table up. Decoding looks up the next `log`
bits.
-/

namespace DocStore.Zstd

/-- What a place of the table decodes, and with how many bits: a symbol, and perhaps the symbol
after it, if the place determines both. -/
structure HuffmanEntry where
  symbol : UInt8
  following : Option UInt8
  bits : Nat
  deriving Repr, Inhabited

namespace HuffmanEntry

/-- How many symbols are decoded. -/
def symbols (e : HuffmanEntry) : Nat :=
  if e.following.isSome then 2 else 1

/-- Append the symbols. -/
def append (e : HuffmanEntry) (out : Array UInt8) : Array UInt8 :=
  match e.following with
  | none => out.push e.symbol
  | some symbol => (out.push e.symbol).push symbol

end HuffmanEntry

/-- A Huffman code. -/
structure HuffmanTable where
  log : Nat
  /-- May a place decode two symbols? -/
  paired : Bool
  entries : Array HuffmanEntry
  deriving Repr

/-- The longest code that can occur. -/
def maxHuffmanLog : Nat := 12

/-- The weights in a description of `data`, without the last one, and the bytes they take. -/
def readWeights (data : Array UInt8) : Option (List Nat × Nat) := do
  let first ← data[0]?
  let n := first.toNat
  if 128 ≤ n then
    let count := n - 127
    let size := 1 + (count + 1) / 2
    if data.size < size then none
    else
      let weights := (List.range count).map fun i =>
        let b := (data[1 + i / 2]?.getD 0).toNat
        if i % 2 = 0 then b / 16 else b % 16
      some (weights, size)
  else
    if n = 0 ∨ data.size < 1 + n then none
    else
      let coded := data.extract 1 (1 + n)
      let (distribution, used) ← readDistribution 6 255 coded
      let table := FseTable.ofDistribution distribution
      let bits ← DownwardBits.ofArray? (coded.extract used coded.size)
      let (first, bits) := table.start bits
      let (second, bits) := table.start bits
      if 0 < bits.overrun then none
      else
        let weights ← table.decodeTurns 254 first second bits []
        some (weights, 1 + n)

/-- The places of a table for codes of up to `log` bits, with one symbol each. -/
def singleEntries (log : Nat) (weights : List Nat) : List HuffmanEntry :=
  let numbered := weights.zipIdx
  (List.range log).flatMap fun i =>
    (numbered.filter fun (w, _) => w = i + 1).flatMap fun (w, symbol) =>
      List.replicate (2 ^ (w - 1)) ⟨UInt8.ofNat symbol, none, log + 1 - w⟩

/-- The weights of a code, from all but the last of them, and the length of its longest code. -/
def completeWeights? (weights : List Nat) : Option (Nat × List Nat) :=
  let total := (weights.map fun w => 2 ^ w / 2).sum
  if total = 0 ∨ weights.any (maxHuffmanLog < ·) then none
  else
    let log := total.log2 + 1
    let missing := 2 ^ log - total
    if maxHuffmanLog < log ∨ 2 ^ missing.log2 ≠ missing then none
    else
      let weights := weights ++ [missing.log2 + 1]
      let longest := weights.count 1
      if longest < 2 ∨ longest % 2 = 1 then none else some (log, weights)

namespace HuffmanTable

/-- The length of the codes that the places of a table stand for, unless longer ones occur. -/
def usualLog : Nat := 11

/-- The table of the code with these weights. A code that is shorter than usual is stretched to the
usual length. -/
def ofWeights (log : Nat) (weights : List Nat) : HuffmanTable :=
  let stretch := usualLog - log
  ⟨log + stretch, false,
    (singleEntries (log + stretch) (weights.map fun w => if w = 0 then 0 else w + stretch)).toArray⟩

/-- The table whose places decode a second symbol where its code fits in. -/
def withPairs (t : HuffmanTable) : HuffmanTable :=
  let pair (place : Nat) (e : HuffmanEntry) : HuffmanEntry :=
    match t.entries[place * 2 ^ e.bits % 2 ^ t.log]? with
    | none => e
    | some e' =>
      if e.bits + e'.bits ≤ t.log then ⟨e.symbol, some e'.symbol, e.bits + e'.bits⟩ else e
  ⟨t.log, true, (t.entries.toList.zipIdx.map fun (e, place) => pair place e).toArray⟩

/-- Read a code, and the number of bytes its description takes. -/
def read? (data : Array UInt8) : Option (HuffmanTable × Nat) := do
  let (weights, size) ← readWeights data
  let (log, weights) ← completeWeights? weights
  some (ofWeights log weights, size)

/-- What the next bits decode. -/
def entry (t : HuffmanTable) (place : Nat) : HuffmanEntry :=
  t.entries[place]?.getD ⟨0, none, 0⟩

end HuffmanTable

/-! ### One symbol at a time, or two -/

/-- The estimated time to decode with a table, as a constant and an amount per 256 symbols. -/
structure DecodingTime where
  constant : Nat
  perPage : Nat
  deriving Repr

/-- The estimated times without and with pairs, for streams that take from 0 to 15 sixteenths of
the space of their symbols. -/
def decodingTimes : Array (DecodingTime × DecodingTime) :=
  #[(⟨0, 0⟩, ⟨1, 1⟩), (⟨0, 0⟩, ⟨1, 1⟩), (⟨150, 216⟩, ⟨381, 119⟩), (⟨170, 205⟩, ⟨514, 112⟩),
    (⟨177, 199⟩, ⟨539, 110⟩), (⟨197, 194⟩, ⟨644, 107⟩), (⟨221, 192⟩, ⟨735, 107⟩),
    (⟨256, 189⟩, ⟨881, 106⟩), (⟨359, 188⟩, ⟨1167, 109⟩), (⟨582, 187⟩, ⟨1570, 114⟩),
    (⟨688, 187⟩, ⟨1712, 122⟩), (⟨825, 186⟩, ⟨1965, 136⟩), (⟨976, 185⟩, ⟨2131, 150⟩),
    (⟨1180, 186⟩, ⟨2070, 175⟩), (⟨1377, 185⟩, ⟨1731, 202⟩), (⟨1412, 185⟩, ⟨1695, 202⟩)]

/-- Is it worth the while to decode pairs, for `count` symbols in `size` bytes? -/
def prefersPairs (count size : Nat) : Bool :=
  let ratio := if count ≤ size then 15 else size * 16 / count
  let pages := count / 256
  let (single, paired) := decodingTimes[ratio]?.getD (⟨0, 0⟩, ⟨0, 0⟩)
  let time := paired.constant + paired.perPage * pages
  decide (time + time / 32 < single.constant + single.perPage * pages)

end DocStore.Zstd
