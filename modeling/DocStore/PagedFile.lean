import DocStore.Cursor

/-!
# Files read page by page

A file is read through a page: a run of bytes that was fetched before, together with the offset it
came from. A read within the page looks at the page alone, whatever the file holds by now, and reads
of a page or more go past it.

`PagedFile.readVia` takes the operating system's positional read as an argument, which may fail or
deliver fewer bytes than were asked for. The other reads use `PagedFile.fetch`.
-/

namespace DocStore

/-- Bytes of a file that were fetched from `start`. -/
structure Page where
  start : Nat
  bytes : Array UInt8
  deriving DecidableEq, Repr

/-- The page before anything was fetched. -/
def Page.none : Page := ⟨0, #[]⟩

/-- A position in an open file. -/
structure PagedFile where
  /-- What the file holds at present. Nothing can be read of a directory. -/
  live : Option Bytes
  /-- Its length when it was opened. -/
  size : Nat
  position : Nat
  page : Page
  deriving DecidableEq, Repr

namespace PagedFile

/-- The length of a full page. -/
def pageSize : Nat := 8192

/-- The start of a file that was just opened. -/
def opened (live : Option Bytes) (size : Nat) : PagedFile :=
  ⟨live, size, 0, .none⟩

/-! ### One read -/

/-- The positional read of an operating system that delivers all it has. -/
def fetch (f : PagedFile) (offset n : Nat) : Except Fault Bytes :=
  match f.live with
  | some bytes => .ok ((bytes.drop offset).take n)
  | none => .error (.system .isADirectory)

/-- Does the page hold the byte at the position? -/
def inPage (f : PagedFile) : Bool :=
  f.page.start ≤ f.position && f.position < f.page.start + f.page.bytes.size

/-- `bytes` cut or filled up with zeros to the length `n`. -/
def resize (bytes : Array UInt8) (n : Nat) : Array UInt8 :=
  bytes.take n ++ Array.replicate (n - bytes.size) 0

/-- Copy at most `n` bytes out of the page. -/
def readPage (n : Nat) : Step PagedFile Fault Bytes := fun f =>
  let start := f.position - f.page.start
  let bytes := (f.page.bytes.extract start (start + n)).toList
  (.ok bytes, { f with position := f.position + bytes.length })

/-- Read once, at most `n` bytes, with `pread offset count` for the operating system's positional
read. The page is resized before it is filled, and moved only when it has been filled. -/
def readVia (pread : Nat → Nat → Except Fault Bytes) (n : Nat) : Step PagedFile Fault Bytes :=
  fun f =>
    if f.size ≤ f.position ∨ n = 0 then (.ok [], f)
    else if pageSize ≤ n then
      match pread f.position n with
      | .error e => (.error e, f)
      | .ok bytes => (.ok bytes, { f with position := f.position + bytes.length })
    else if f.inPage then readPage n f
    else
      let wanted := min pageSize (f.size - f.position)
      match pread f.position wanted with
      | .error e =>
        (.error e, { f with page := { f.page with bytes := resize f.page.bytes wanted } })
      | .ok bytes =>
        let f' := { f with page := ⟨f.position, bytes.toArray⟩ }
        if bytes.isEmpty then (.ok [], f') else readPage n f'

/-- Read once, at most `n` bytes. -/
def read (n : Nat) : Step PagedFile Fault Bytes := fun f =>
  readVia f.fetch n f

/-! ### Reading a number of bytes -/

/-- Read `n` bytes in at most `fuel` reads. -/
def readAtLeast : (fuel n : Nat) → Step PagedFile Fault Bytes
  | 0, _ => pure []
  | fuel + 1, n =>
    if n = 0 then pure []
    else do
      let bytes ← read n
      if bytes.isEmpty then Step.fail .endOfInput
      else
        let more ← readAtLeast fuel (n - bytes.length)
        pure (bytes ++ more)

/-- Read exactly `n` bytes. If fewer are left they are consumed all the same. -/
def take (n : Nat) : Step PagedFile Fault Bytes :=
  readAtLeast n n

/-- Read one byte. -/
def byte : Step PagedFile Fault UInt8 := do
  match ← read 1 with
  | b :: _ => pure b
  | [] => Step.fail .endOfInput

instance : Source PagedFile where
  byte := byte
  take := take
  skip n f := { f with position := f.position + n }
  position := position
  size := size

/-! ### Reading to the end

Who reads all that is left does not know how much it is, and reads into a buffer that grows. How
much room the buffer has decides how much each read asks for, and with it whether the read goes past
the page. -/

/-- A buffer that grows while it is filled. -/
structure Growth where
  /-- How many bytes it holds. -/
  held : Nat
  capacity : Nat
  /-- The most that is asked for at once. -/
  limit : Nat
  deriving DecidableEq, Repr

namespace Growth

/-- How much is asked for first, and the least room that a full buffer is given. -/
def probe : Nat := 32

/-- The smallest buffer. -/
def minCapacity : Nat := 8

/-- The buffer that holds the answer to the first read. -/
def ofProbe (held : Nat) : Growth :=
  ⟨held, max held minCapacity, pageSize⟩

/-- The buffer with room for more. -/
def makeRoom (g : Growth) : Growth :=
  if g.held = g.capacity then { g with capacity := max (2 * g.capacity) (g.held + probe) } else g

/-- How much is asked for. -/
def request (g : Growth) : Nat :=
  min (g.capacity - g.held) g.limit

/-- The buffer after `count` of the bytes asked for have arrived. Whoever got as much as was allowed
may ask for twice as much. -/
def receive (count : Nat) (g : Growth) : Growth :=
  { g with
    held := g.held + count
    limit := if g.limit ≤ g.request ∧ count = g.request then 2 * g.limit else g.limit }

end Growth

/-- Read until a read delivers nothing, in at most `fuel` reads. The pieces read before are in
`done`, newest first. -/
def readRest : (fuel : Nat) → Growth → (done : List Bytes) → Step PagedFile Fault Bytes
  | 0, _, done => pure done.reverse.flatten
  | fuel + 1, g, done => do
    let g := g.makeRoom
    let bytes ← read g.request
    if bytes.isEmpty then pure done.reverse.flatten
    else readRest fuel (g.receive bytes.length) (bytes :: done)

/-- Read all bytes that are left. Every read but the last delivers a byte at least. -/
def readToEnd : Step PagedFile Fault Bytes := do
  let first ← read Growth.probe
  if first.isEmpty then pure []
  else
    let f ← Step.get
    readRest (f.size - f.position + 1) (.ofProbe first.length) [first]

/-- A second reader of the file at the same position, without a page. -/
def clone (f : PagedFile) : PagedFile :=
  { f with page := .none }

end PagedFile

end DocStore
