import DocStore.Crc32
import DocStore.Storage.Directory

/-!
# Outputs

An output writes one file from its start to its end, and knows how many bytes it was given and
their checksum. Bytes wait in a buffer of the output before they reach the file.

* In memory the buffer is passed on when it holds 64 KiB or more after a write, and the file is
  looked up by name at that moment.
* On a disk the buffer has 8 KiB. A write that does not fit empties it first, and a write of 8 KiB
  or more goes past it.

A write to a medium that is nearly full is cut where the medium ends.
-/

namespace DocStore.Storage

/-- The file an output writes to. -/
inductive Target where
  /-- The file that has the output's name when bytes are passed on. -/
  | byName
  /-- This file, from this offset on. -/
  | onDisk (id offset : Nat)
  deriving DecidableEq, Repr

/-- A file being written. -/
structure Output where
  name : String
  target : Target
  /-- The bytes that have not reached the file. -/
  pending : Array UInt8
  /-- How many bytes were taken. -/
  written : Nat
  /-- The checksum register over those bytes. -/
  register : UInt32
  /-- How many bytes the medium accepts, if it does not accept all. -/
  limit : Option Nat
  deriving Repr

namespace Output

/-- The checksum of the bytes taken so far. -/
def checksum (o : Output) : UInt32 :=
  Crc32.finish o.register

end Output

/-- An output together with the directory that its file is in. -/
structure Sink where
  output : Output
  directory : Directory
  deriving Repr

/-- Start a new, empty file. -/
def Directory.create (name : String) : Step Directory Fault Output := fun d =>
  match d.entryFor name true with
  | .error e => (.error e, d)
  | .ok entry =>
    let target := match d.medium with
      | .memory _ => Target.byName
      | .disk _ contents => Target.onDisk contents.size 0
    let output :=
      { name, target, pending := #[], written := 0, register := Crc32.start
        limit := d.limits.writes.find? name }
    (.ok output, d.store entry [])

/-- `content` with `bytes` from `offset` on; a gap before them is filled with zeros. -/
def overwrite (content : Bytes) (offset : Nat) (bytes : Bytes) : Bytes :=
  content.take offset ++ List.replicate (offset - content.length) 0 ++ bytes ++
    content.drop (offset + bytes.length)

namespace Sink

/-- How many bytes an output in memory may hold back. -/
def memoryBuffer : Nat := 65536

/-- How many bytes an output on a disk may hold back. -/
def diskBuffer : Nat := 8192

/-- Hand bytes to the file, past the buffer. -/
def store (bytes : Bytes) : Step Sink Fault Unit := fun s =>
  match s.output.target, s.directory.medium with
  | .byName, .memory files =>
    match files.find? s.output.name with
    | some content =>
      let files' := files.insert s.output.name (content ++ bytes)
      (.ok (), { s with directory := { s.directory with medium := .memory files' } })
    | none => (.error (.noSuchFile s.output.name), s)
  | .onDisk id offset, .disk names contents =>
    let content := contents[id]?.getD []
    let contents' := contents.setIfInBounds id (overwrite content offset bytes)
    (.ok (),
      { output := { s.output with target := .onDisk id (offset + bytes.length) }
        directory := { s.directory with medium := .disk names contents' } })
  | _, _ => (.error (.noSuchFile s.output.name), s)

/-- Pass the buffer on to the file. If that fails the buffer is kept. -/
def flush : Step Sink Fault Unit := fun s =>
  if s.output.pending.isEmpty then (.ok (), s)
  else
    match store s.output.pending.toList s with
    | (.ok (), s') => (.ok (), { s' with output := { s'.output with pending := #[] } })
    | (.error e, s') => (.error e, s')

/-- Put bytes into the buffer. -/
def hold (bytes : Bytes) (s : Sink) : Sink :=
  { s with output := { s.output with pending := s.output.pending ++ bytes } }

/-- Count bytes as taken. -/
def count (bytes : Bytes) (s : Sink) : Sink :=
  { s with
    output :=
      { s.output with
        written := s.output.written + bytes.length
        register := Crc32.feed s.output.register bytes } }

/-- Take all of the bytes, through the buffer of a file in memory. The bytes count as taken even
if the buffer cannot be passed on afterwards. -/
def acceptInMemory (bytes : Bytes) : Step Sink Fault Unit := do
  Step.modify (hold bytes)
  Step.modify (count bytes)
  let s ← Step.get
  if memoryBuffer ≤ s.output.pending.size then flush else pure ()

/-- Take all of the bytes, through the buffer of a file on a disk. -/
def acceptOnDisk (bytes : Bytes) : Step Sink Fault Unit := do
  let s ← Step.get
  let room := diskBuffer - s.output.pending.size
  if room < bytes.length then flush
  if diskBuffer ≤ bytes.length then store bytes else Step.modify (hold bytes)
  Step.modify (count bytes)

/-- Take all of the bytes. -/
def accept (bytes : Bytes) : Step Sink Fault Unit := fun s =>
  match s.output.target with
  | .byName => acceptInMemory bytes s
  | .onDisk .. => acceptOnDisk bytes s

/-- Write one piece: as many of its bytes as the medium accepts, which has to be all of them. -/
def write (bytes : Bytes) : Step Sink Fault Unit := fun s =>
  if bytes.isEmpty then (.ok (), s)
  else
    match s.output.limit with
    | none => accept bytes s
    | some limit =>
      let room := limit - s.output.written
      if bytes.length ≤ room then accept bytes s
      else if room = 0 then (.error .spaceExhausted, s)
      else (do accept (bytes.take room); Step.fail .spaceExhausted : Step Sink Fault Unit) s

/-- Write pieces in order, up to the first that fails. -/
def writeAll : Pieces → Step Sink Fault Unit
  | [], s => (.ok (), s)
  | piece :: pieces, s =>
    match write piece s with
    | (.ok (), s') => writeAll pieces s'
    | (.error e, s') => (.error e, s')

end Sink

namespace Directory

/-- Close an output, which passes on what it held back. -/
def close (o : Output) : Step Directory Fault Unit := fun d =>
  let (r, s) := Sink.flush ⟨o, d⟩
  (r, s.directory)

/-- Give up an output without closing it. It still passes on what it held back, if it can. -/
def drop (o : Output) (d : Directory) : Directory :=
  (close o d).2

end Directory

end DocStore.Storage
