import DocStore.Buffer
import DocStore.Error
import DocStore.Zstd.FrameDecoder

/-!
# Compression of payloads

A payload is kept as it is or compressed. The data file says which with one byte; the level of
compression matters to the writer alone and is not kept. Writing takes any compressor, of which
`Zstd.uncompressed` is the simplest, and reading any decoder.
-/

namespace DocStore

/-- How a writer compresses payloads. -/
inductive Compression where
  | none
  | zstd (level : Int)
  deriving DecidableEq, Repr

/-- How the payloads of a file are kept. -/
inductive PayloadForm where
  | plain
  | zstd
  deriving DecidableEq, Repr

namespace PayloadForm

/-- The byte that stands for the form. -/
def tag : PayloadForm → Nat
  | plain => 0
  | zstd => 1

/-- The form with a tag. -/
def ofTag? : Nat → Option PayloadForm
  | 0 => some plain
  | 1 => some zstd
  | _ => none

/-- What it means for a frame that its first bytes cannot be produced. -/
def problemOf : Zstd.StreamFailure → FrameProblem
  | .malformed => .malformed
  | .cut => .endedEarly
  | .short => .shorterThanPromised

/-- Add the bytes from `skip` up to `wanted` of the payload of `rawLength` bytes that is kept in
`stored` to those that are there. Nothing after them is produced. A compressed payload is given
`wanted` bytes of room before it is known to be well formed. -/
def produce [Zstd.FrameDecoder] (form : PayloadForm) (rawLength skip wanted : Nat)
    (stored : Bytes) : Step Buffer (Stop FrameProblem) Unit := fun out =>
  match form with
  | plain =>
    if stored.length ≠ rawLength then (.error (.failed .lengthMismatch), out)
    else if wanted < skip ∨ stored.length < wanted then (.error (.refused .sliceOutOfRange), out)
    else (.ok (), out.append ((stored.take wanted).drop skip))
  | zstd =>
    match Zstd.FrameDecoder.first wanted stored with
    | .ok bytes => (.ok (), out.append (bytes.drop skip))
    | .error failure =>
      (.error (.failed (problemOf failure)), out.append (List.replicate wanted 0))

end PayloadForm

namespace Compression

/-- Fast in both directions. -/
def fast : Compression :=
  zstd 1

/-- Slow to write, with less to store. -/
def high : Compression :=
  zstd 19

/-- The form in which payloads are kept. -/
def form : Compression → PayloadForm
  | none => .plain
  | zstd _ => .zstd

end Compression

/-- The compressor that makes frames whose blocks are not compressed, at any level. -/
def Zstd.uncompressed (_level : Int) (payload : Bytes) : Bytes :=
  Zstd.encodeFrame payload

/-- Turns payloads into the bytes that are stored of them. -/
structure Compressor where
  mode : Compression
  /-- The frame that a payload is compressed to at a level. -/
  frame : (level : Int) → Bytes → Bytes

/-- The stored bytes of a payload. -/
def Compressor.store (c : Compressor) (payload : Bytes) : Bytes :=
  match c.mode with
  | .none => payload
  | .zstd level => c.frame level payload

end DocStore
