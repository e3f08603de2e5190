import DocStore.Compression
import DocStore.Cursor
import DocStore.VarInt

/-!
# Frames of a chunk

The documents of a chunk are one payload, or several of equal length when they are many. Each
payload is kept as a frame: its length, the length of its stored bytes, and the stored bytes. A
range of the documents is read by walking over the frames: those before the range are passed over,
and none is decompressed beyond the end of the range.
-/

namespace DocStore.Frame

/-- What is written for a frame. -/
def encode (compressor : Compressor) (payload : Bytes) : Pieces :=
  let stored := compressor.store payload
  bytewise (VarInt.encode payload.length ++ VarInt.encode stored.length) ++ [stored]

/-- What is needed to read the frames of a file. -/
structure Format where
  /-- The name of the file. -/
  resource : String
  form : PayloadForm
  /-- The longest payload that any frame may claim. -/
  maxRawLength : Nat
  deriving DecidableEq, Repr

/-- A place among frames, and what is at hand there. -/
structure Walk (σ : Type) where
  source : σ
  /-- How many payload bytes were produced on the way. -/
  produced : Nat
  /-- Room for the stored bytes of a frame. It is used again for the next one. -/
  stored : Bytes
  /-- The bytes of the range so far. -/
  out : Buffer
  deriving DecidableEq, Repr

/-- `bytes` cut or filled up with zeros to the length `n`. -/
def resize (bytes : Bytes) (n : Nat) : Bytes :=
  bytes.take n ++ List.replicate (n - bytes.length) 0

variable {σ : Type}

/-- Use a decoder on the way. -/
def onSource {ε α : Type} (d : Step σ ε α) : Step (Walk σ) ε α :=
  Step.focus Walk.source (fun source w => { w with source }) d

/-- Use a step on the bytes of the range. -/
def onOut {ε α : Type} (x : Step Buffer ε α) : Step (Walk σ) ε α :=
  fun ⟨source, produced, stored, out⟩ =>
    match x out with
    | (r, out) => (r, ⟨source, produced, stored, out⟩)

namespace Format

variable [Source σ]

/-- Stop because of a frame. -/
def fail {α : Type} (f : Format) (problem : FrameProblem) : Step (Walk σ) (Stop Error) α :=
  Step.throw (.failDecompress f.resource problem)

/-- Read the two lengths of a frame, which must be possible ones. -/
def readLengths (f : Format) : Step (Walk σ) (Stop Error) (Nat × Nat) := do
  let start ← onSource Step.get
  let lengths : Step σ Fault (Nat × Nat) := do
    let raw ← VarInt.vint
    let stored ← VarInt.vint
    pure (raw, stored)
  let (raw, stored) ← (onSource lengths).decoding f.resource (.frameHeader (Source.position start))
  if raw = 0 ∨ f.maxRawLength < raw then f.fail (.exceededSize f.maxRawLength raw)
  else
    let source ← onSource Step.get
    if Source.available source < stored then f.fail .pastEndOfFile else pure (raw, stored)

/-- Read the stored bytes of a frame into the room for them. Bytes that do not arrive are the
frame's fault, whatever the storage says. -/
def readStored (f : Format) (stored : Nat) : Step (Walk σ) (Stop Error) Unit := do
  Step.modify fun w => { w with stored := resize w.stored stored }
  let bytes ← (onSource (Source.take stored)).mapError fun _ =>
    .failed (.failDecompress f.resource .endedEarly)
  Step.modify fun w => { w with stored := bytes }

variable [Zstd.FrameDecoder]

/-- Produce the bytes from `skip` up to `wanted` of the frame whose lengths have been read. -/
def readPayload (f : Format) (raw stored skip wanted : Nat) :
    Step (Walk σ) (Stop Error) Unit := do
  f.readStored stored
  let w ← Step.get
  (onOut (f.form.produce raw skip wanted w.stored)).mapError
    (Stop.map (.failDecompress f.resource))
  Step.modify fun w => { w with produced := w.produced + wanted }

/-- Read the bytes from `start` up to `stop` of the payloads of which `passed` bytes lie before the
next frame. -/
def readFrom (f : Format) (start stop passed : Nat) : Step (Walk σ) (Stop Error) Unit :=
  if _h : stop ≤ passed then pure ()
  else do
    let (raw, stored) ← f.readLengths
    if _hraw : raw = 0 then f.fail (.exceededSize f.maxRawLength raw)
    else if passed + raw ≤ start then
      onSource (Step.modify (Source.skip stored))
      f.readFrom start stop (passed + raw)
    else
      let wanted := min stop (passed + raw) - passed
      f.readPayload raw stored (start - passed) wanted
      f.readFrom start stop (passed + raw)
termination_by stop - passed
decreasing_by all_goals omega

/-- Read `length` bytes of the payloads of the frames that follow, from `offset` on, in the place of
those that are there. -/
def read (f : Format) (offset length : Nat) : Step (Walk σ) (Stop Error) Unit := do
  onOut (Step.set .empty)
  f.readFrom offset (offset + length) 0
  let w ← Step.get
  Step.require (w.out.size = length) .producedLength

end Format

end DocStore.Frame
