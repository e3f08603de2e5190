import DocStore.Zstd.Bits

/-!
# Finite-state entropy tables

A distribution gives each symbol a number of the `2 ^ accuracy` states of a decoder; a symbol that
is less likely than one state has the entry `-1` and gets one state. A state decodes one symbol and
says how many bits to read for the next state.
-/

namespace DocStore.Zstd

/-- How often each symbol occurs, in states. -/
structure Distribution where
  accuracy : Nat
  counts : List Int
  deriving Repr

/-- What a state decodes. -/
structure FseEntry where
  symbol : Nat
  /-- How many bits to read for the next state. -/
  bits : Nat
  /-- What to add to them. -/
  base : Nat
  deriving Repr, Inhabited

/-- The states of a decoder. -/
structure FseTable where
  accuracy : Nat
  entries : Array FseEntry
  deriving Repr

/-! ### Descriptions of distributions -/

/-- Read the flags that count the symbols without states after one that has none: two bits each,
where three says that another flag follows. Answers how many, and the bit after the flags. -/
def readZeroRun (data : Array UInt8) : (fuel : Nat) → (bit : Nat) → Nat × Nat
  | 0, bit => (0, bit)
  | fuel + 1, bit =>
    let run := bitsAt data bit 2
    if run = 3 then
      let (more, bit') := readZeroRun data fuel (bit + 2)
      (run + more, bit')
    else (run, bit + 2)

/-- Read the counts of symbols from bit `bit` on, until `remaining` states are given away. The
counts so far come in reverse. Answers all counts and the bit after them. -/
def readCounts (data : Array UInt8) (maxSymbol : Nat) :
    (fuel : Nat) → (bit remaining : Nat) → (counts : List Int) → Option (List Int × Nat)
  | 0, _, _, _ => none
  | fuel + 1, bit, remaining, counts =>
    if remaining = 0 then some (counts.reverse, bit)
    else if maxSymbol < counts.length then none
    else
      let width := (remaining + 1).log2 + 1
      let raw := bitsAt data bit width
      let low := raw % 2 ^ (width - 1)
      let threshold := 2 ^ width - 1 - (remaining + 1)
      let (value, used) :=
        if low < threshold then (low, width - 1)
        else if 2 ^ (width - 1) ≤ raw then (raw - threshold, width)
        else (raw, width)
      let given := if value = 0 then 1 else value - 1
      if remaining < given then none
      else
        let counts := ((value : Int) - 1) :: counts
        if value = 1 then
          let (run, bit') := readZeroRun data (8 * data.size) (bit + used)
          readCounts data maxSymbol fuel bit' remaining (List.replicate run 0 ++ counts)
        else readCounts data maxSymbol fuel (bit + used) (remaining - given) counts

/-- Read a distribution over the symbols up to `maxSymbol` at the start of `data`. Answers it and
the number of bytes it takes. -/
def readDistribution (maxAccuracy maxSymbol : Nat) (data : Array UInt8) :
    Option (Distribution × Nat) := do
  let accuracy := bitsAt data 0 4 + 5
  if maxAccuracy < accuracy then none
  else
    let (counts, bit) ← readCounts data maxSymbol (maxSymbol + 2) 4 (2 ^ accuracy) []
    let size := (bit + 7) / 8
    if maxSymbol + 1 < counts.length ∨ data.size < size then none
    else some (⟨accuracy, counts⟩, size)

/-! ### Tables -/

/-- The place after `place` in the order in which states are given away; the places from `limit`
on belong to unlikely symbols. -/
def nextPlace (size limit : Nat) : (fuel : Nat) → (place : Nat) → Nat
  | 0, place => place
  | fuel + 1, place =>
    let place' := (place + size / 2 + size / 8 + 3) % size
    if limit ≤ place' then nextPlace size limit fuel place' else place'

/-- Give each symbol of the list the next place. -/
def spread (size limit : Nat) (symbols : List Nat) (table : Array Nat) : Array Nat × Nat :=
  symbols.foldl
    (fun (table, place) symbol =>
      (table.setIfInBounds place symbol, nextPlace size limit size place))
    (table, 0)

/-- The table of a distribution. -/
def FseTable.ofDistribution (d : Distribution) : FseTable :=
  let size := 2 ^ d.accuracy
  let numbered := d.counts.zipIdx
  let unlikely := (numbered.filter fun (count, _) => count = -1).map (·.2)
  let limit := size - unlikely.length
  let atEnd := unlikely.zipIdx.foldl
    (fun table (symbol, i) => table.setIfInBounds (size - 1 - i) symbol)
    (Array.replicate size 0)
  let likely := numbered.flatMap fun (count, symbol) => List.replicate count.toNat symbol
  let symbols := (spread size limit likely atEnd).1
  let start := (d.counts.map fun count => if count = -1 then 1 else count.toNat).toArray
  let (entries, _) := symbols.foldl
    (fun (entries, next) symbol =>
      let x := next[symbol]?.getD 1
      let bits := d.accuracy - x.log2
      (entries.push ⟨symbol, bits, x * 2 ^ bits - size⟩, next.setIfInBounds symbol (x + 1)))
    ((#[] : Array FseEntry), start)
  ⟨d.accuracy, entries⟩

/-- The table that decodes one symbol without reading bits. -/
def FseTable.single (symbol : Nat) : FseTable :=
  ⟨0, #[⟨symbol, 0, 0⟩]⟩

namespace FseTable

/-- The entry of a state. -/
def entry (t : FseTable) (state : Nat) : FseEntry :=
  t.entries[state]?.getD ⟨0, 0, 0⟩

/-- Read the first state. -/
def start (t : FseTable) (bits : DownwardBits) : Nat × DownwardBits :=
  bits.read t.accuracy

/-- Read the state after `state`. -/
def next (t : FseTable) (state : Nat) (bits : DownwardBits) : Nat × DownwardBits :=
  let e := t.entry state
  let (n, bits') := bits.read e.bits
  (e.base + n, bits')

/-- Decode symbols with two states that take turns, until the bits are overrun. The symbols so far
come in reverse; there may be at most `fuel + 2` more of them. -/
def decodeTurns (t : FseTable) : (fuel : Nat) → (first second : Nat) → DownwardBits →
    (symbols : List Nat) → Option (List Nat)
  | 0, _, _, _, _ => none
  | fuel + 1, first, second, bits, symbols =>
    let symbols := (t.entry first).symbol :: symbols
    let (first', bits') := t.next first bits
    if 0 < bits'.overrun then some ((t.entry second).symbol :: symbols).reverse
    else decodeTurns t fuel second first' bits' symbols

end FseTable

end DocStore.Zstd
