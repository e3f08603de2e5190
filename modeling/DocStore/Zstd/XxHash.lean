import DocStore.Zstd.Bits

/-!
# XXH64

The 64-bit hash whose low half can end a frame, with seed zero.
-/

namespace DocStore.Zstd.XxHash

/-- The primes that words are multiplied by or moved by. -/
def prime1 : UInt64 := 0x9E3779B185EBCA87
@[inherit_doc prime1]
def prime2 : UInt64 := 0xC2B2AE3D27D4EB4F
@[inherit_doc prime1]
def prime3 : UInt64 := 0x165667B19E3779F9
@[inherit_doc prime1]
def prime4 : UInt64 := 0x85EBCA77C2B2AE63
@[inherit_doc prime1]
def prime5 : UInt64 := 0x27D4EB2F165667C5

/-- Rotate a word to the left. -/
def rotate (x : UInt64) (n : UInt64) : UInt64 :=
  (x <<< n) ||| (x >>> (64 - n))

/-- Mix a word of input into an accumulator. -/
def round (acc input : UInt64) : UInt64 :=
  rotate (acc + input * prime2) 31 * prime1

/-- Mix an accumulator into the hash. -/
def merge (hash acc : UInt64) : UInt64 :=
  (hash ^^^ round 0 acc) * prime1 + prime4

/-- The word of `count` bytes at `position`, lowest byte first. -/
def word (data : Array UInt8) (position count : Nat) : UInt64 :=
  UInt64.ofNat (littleEndianAt data position count)

/-- The four accumulators. -/
structure Lanes where
  a : UInt64
  b : UInt64
  c : UInt64
  d : UInt64

/-- Mix `count` stripes of 32 bytes into the accumulators. -/
def stripes (data : Array UInt8) : (count : Nat) → (position : Nat) → Lanes → Lanes
  | 0, _, l => l
  | count + 1, p, l =>
    stripes data count (p + 32)
      ⟨round l.a (word data p 8), round l.b (word data (p + 8) 8),
        round l.c (word data (p + 16) 8), round l.d (word data (p + 24) 8)⟩

/-- Mix the words of eight bytes that are left. -/
def longWords (data : Array UInt8) : (count : Nat) → (position : Nat) → UInt64 → UInt64
  | 0, _, h => h
  | count + 1, p, h =>
    longWords data count (p + 8) (rotate (h ^^^ round 0 (word data p 8)) 27 * prime1 + prime4)

/-- Mix the bytes that are left. -/
def lastBytes (data : Array UInt8) : (count : Nat) → (position : Nat) → UInt64 → UInt64
  | 0, _, h => h
  | count + 1, p, h =>
    lastBytes data count (p + 1) (rotate (h ^^^ word data p 1 * prime5) 11 * prime1)

/-- Spread the bits of the hash. -/
def avalanche (h : UInt64) : UInt64 :=
  let h := (h ^^^ (h >>> 33)) * prime2
  let h := (h ^^^ (h >>> 29)) * prime3
  h ^^^ (h >>> 32)

/-- The hash of some bytes. -/
def hash (data : Array UInt8) : UInt64 :=
  let size := data.size
  let full := size / 32
  let h :=
    if full = 0 then prime5
    else
      let l := stripes data full 0 ⟨prime1 + prime2, prime2, 0, 0 - prime1⟩
      let h := rotate l.a 1 + rotate l.b 7 + rotate l.c 12 + rotate l.d 18
      merge (merge (merge (merge h l.a) l.b) l.c) l.d
  let h := h + UInt64.ofNat size
  let p := full * 32
  let longCount := (size - p) / 8
  let h := longWords data longCount p h
  let p := p + longCount * 8
  if size - p < 4 then avalanche (lastBytes data (size - p) p h)
  else
    let h := rotate (h ^^^ word data p 4 * prime1) 23 * prime2 + prime3
    avalanche (lastBytes data (size - p - 4) (p + 4) h)

end DocStore.Zstd.XxHash
