import DocStore.PagedFile
import DocStore.Storage.Directory

/-!
# Inputs

An input reads a file from any position. An input in memory reads the copy that was taken when it
was opened. An input on a disk reads the file as it is, page by page.

`Input.decode` runs a decoder from the position on. A decoder may run on any source, so that it
reads either kind of input.
-/

namespace DocStore.Storage

/-- A position in a copy of a file. -/
structure MemoryInput where
  name : String
  content : Bytes
  position : Nat
  /-- The offset from which on the medium delivers nothing. -/
  limit : Option Nat
  deriving DecidableEq, Repr

/-- A file on a disk, which is no entry if it is the directory itself. -/
structure FileInput where
  name : String
  /-- The file, unless it is the directory itself. -/
  id : Option Nat
  file : PagedFile
  deriving DecidableEq, Repr

/-- A file being read. -/
inductive Input where
  | memory (input : MemoryInput)
  | file (input : FileInput)
  deriving DecidableEq, Repr

/-! ### Files in memory -/

namespace MemoryInput

/-- How many bytes the medium delivers, counted from the start of the file. -/
def delivered (i : MemoryInput) : Nat :=
  match i.limit with
  | none => i.content.length
  | some limit => min limit i.content.length

/-- Read once, at most `n` bytes. No byte is read at the end of the file. -/
def read (n : Nat) : Step MemoryInput Fault Bytes := fun i =>
  if n = 0 ∨ i.content.length ≤ i.position then (.ok [], i)
  else if i.delivered ≤ i.position then (.error .readFailed, i)
  else
    let bytes := (i.content.drop i.position).take (min n (i.delivered - i.position))
    (.ok bytes, { i with position := i.position + bytes.length })

/-- What reading on delivers. -/
def cursor (i : MemoryInput) : Cursor where
  position := i.position
  size := i.content.length
  rest :=
    match i.limit with
    | none => i.content.drop i.position
    | some limit => (i.content.take limit).drop i.position
  broken := i.limit.isSome

/-- Decode from the position on. -/
def decode {ε α : Type} (d : Decoder ε α) : Step MemoryInput ε α := fun i =>
  match d i.cursor with
  | (r, c) => (r, { i with position := c.position })

end MemoryInput

/-! ### Files on a disk -/

namespace FileInput

/-- Use a step on the file. -/
def onFile {ε α : Type} (x : Step PagedFile ε α) : Step FileInput ε α :=
  Step.focus FileInput.file (fun file i => { i with file }) x

end FileInput

/-! ### Inputs of either kind -/

namespace Input

/-- The name of the file. -/
def name : Input → String
  | memory i => i.name
  | file i => i.name

/-- The length of the file, as it was when it was opened. -/
def size : Input → Nat
  | memory i => i.content.length
  | file i => i.file.size

/-- The offset of the next byte. -/
def position : Input → Nat
  | memory i => i.position
  | file i => i.file.position

/-- Use one step or the other, as the input is. -/
def onEither {ε α : Type} (inMemory : Step MemoryInput ε α) (onDisk : Step PagedFile ε α) :
    Step Input ε α
  | memory i => match inMemory i with
    | (r, i') => (r, memory i')
  | file i => match FileInput.onFile onDisk i with
    | (r, i') => (r, file i')

/-- Go to a position, which may be the end of the file but not lie beyond it. -/
def seek (position : Nat) : Step Input Fault Unit := fun i =>
  if i.size < position then (.error (.seekPastEnd i.name position i.size), i)
  else
    onEither (Step.modify fun i => { i with position })
      (Step.modify fun f => { f with position }) i

/-- Read once, at most `n` bytes. -/
def read (n : Nat) : Step Input Fault Bytes :=
  onEither (MemoryInput.read n) (PagedFile.read n)

/-- Decode from the position on. -/
def decode {ε α : Type} (d : {σ : Type} → [Source σ] → Step σ ε α) : Step Input ε α :=
  onEither (MemoryInput.decode d) d

/-- Read exactly `n` bytes. If fewer are left they are consumed all the same. -/
def readExact (n : Nat) : Step Input Fault Bytes :=
  decode (Source.take n)

/-- Read all bytes that are left. -/
def readToEnd : Step Input Fault Bytes :=
  onEither (MemoryInput.decode Cursor.takeAll) PagedFile.readToEnd

/-- A second input over the same file at the same position. -/
def clone : Input → Input
  | memory i => memory i
  | file i => file { i with file := i.file.clone }

end Input

namespace Directory

/-- The length that the file system tells of a directory. -/
def directorySize : Nat := 4096

/-- The file of a disk that a name leads to, and its content. The directory itself can be opened
like a file. -/
def openOnDisk (names : Dictionary String Nat) (contents : Array Bytes) (name : String) :
    Except Fault FileInput :=
  match Path.locate names.contains name with
  | .ok (.here _) => .ok ⟨name, none, .opened none directorySize⟩
  | _ => do
    let entry ← diskEntry names name
    let id := names.find? entry
    let live := (id.bind fun id => contents[id]?).getD []
    pure ⟨name, id, .opened (some live) live.length⟩

/-- Open a file for reading. -/
def openInput (name : String) (d : Directory) : Except Fault Input :=
  match d.medium with
  | .memory files =>
    match files.find? name with
    | some content =>
      .ok (.memory { name, content, position := 0, limit := d.limits.reads.find? name })
    | none => .error (.noSuchFile name)
  | .disk names contents => (openOnDisk names contents name).map .file

/-- The input with its file as the directory has it now. -/
def refresh (d : Directory) : Input → Input
  | .memory i => .memory i
  | .file i =>
    match d.medium with
    | .memory _ => .file i
    | .disk _ contents =>
      .file { i with file := { i.file with live := i.id.map fun id => contents[id]?.getD [] } }

end Directory

end DocStore.Storage
