import DocStore.Compression

/-!
# The format of a segment

The names and versions of a segment's two files, and what can be chosen when a segment is written.
A reader takes all it needs from the files themselves.
-/

namespace DocStore.Segment

/-- The most documents of a chunk. -/
def maxDocsPerChunk : Nat := 128

/-- The most payload bytes of a chunk: where a document ends is kept in a word. -/
def maxChunkBytes : Nat := 2 ^ 32 - 1

/-- The first version of the files. -/
def firstVersion : Nat := 0

/-- The version from which on the data file counts its chunks. -/
def chunkStatsVersion : Nat := 1

/-- The version that is written. -/
def currentVersion : Nat := chunkStatsVersion

/-- The format name that is used unless another is chosen. -/
def defaultFormatName : String := "StoredFields"

/-- The name of a file of a segment. -/
def fileName (segment suffix extension : String) : String :=
  if suffix.isEmpty then segment ++ "." ++ extension
  else segment ++ "_" ++ suffix ++ "." ++ extension

/-- The data file of a segment. -/
def dataFile (segment suffix : String) : String :=
  fileName segment suffix "fdt"

/-- The index file of a segment. -/
def indexFile (segment suffix : String) : String :=
  fileName segment suffix "fdx"

/-- The name in the header of a data file. -/
def dataCodec (format : String) : String :=
  format ++ "Data"

/-- The name in the header of an index file. -/
def indexCodec (format : String) : String :=
  format ++ "Index"

/-- The largest chunk size. -/
def maxChunkSize : Nat := (2 ^ 31 - 1) / 2

/-- What can be chosen when a segment is written. -/
structure Config where
  /-- How many waiting bytes make a chunk. -/
  chunkSize : Nat := 16384
  compression : Compression := .fast
  /-- How many chunks make a block of the index. -/
  indexBlockSize : Nat := 1024
  deriving DecidableEq, Repr

namespace Config

/-- What is chosen unless something else is. -/
def default : Config := {}

/-- Refuse a choice that is out of range. -/
def check (c : Config) : Except Violation Unit :=
  if c.chunkSize < 1 ∨ maxChunkSize < c.chunkSize then .error (.chunkSize c.chunkSize)
  else if c.indexBlockSize < 1 then .error .indexBlockSize
  else .ok ()

end Config

/-- A way of writing and reading segments. -/
structure Format where
  name : String := defaultFormatName
  suffix : String := ""
  config : Config := {}
  deriving DecidableEq, Repr

/-- The format with a configuration, which has to be in range. -/
def Format.check (f : Format) : Except Violation Format := do
  f.config.check
  pure f

end DocStore.Segment
