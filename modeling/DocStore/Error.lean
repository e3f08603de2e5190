import DocStore.Fault
import DocStore.Step
import DocStore.Text.Hex
import DocStore.Text.Quoted
import DocStore.Text.Utf8

/-!
# Errors and violations

An error is the answer of an operation on a segment whose files do not allow it. Every error but a
fault of the storage means that the stored data is damaged, and it names the file and the values
that disagree. A violation is a call that the caller had to avoid.
-/

namespace DocStore

/-! ### Damage -/

/-- What was being decoded when the bytes turned out malformed. -/
inductive DecodingContext where
  | chunkIndex
  | dataFileHeader
  | chunkStats
  | document (id startPointer : Nat)
  | frameHeader (position : Nat)
  deriving DecidableEq, Repr

/-- The decoded part in words. -/
def DecodingContext.message : DecodingContext → String
  | chunkIndex => "chunk index"
  | dataFileHeader => "data file header"
  | chunkStats => "chunk stats"
  | document id startPointer => s!"docID={id}, startPointer={startPointer}"
  | frameHeader position => s!"frame header at {position}"

/-- A way in which stored data can contradict the format or itself. -/
inductive Damage where
  | decoding (context : DecodingContext) (fault : Fault)
  | tooShortForFooter (size : Nat)
  | checksumAlgorithm (algorithm : Nat)
  | illegalChecksum (checksum : Nat)
  | bitsPerValue (bits : Nat)
  | bitsPerDocBase (bits : Nat)
  | bitsPerStartPointer (bits : Nat)
  | blockPastEnd (chunks : Nat)
  | firstDocBase (docBase : Nat)
  | chunkOutOfOrder (chunk block : Nat) (docBase startPointer : Int)
  | indexEndsEarly (numDocs maxPointer : Nat)
  | trailingBytes (count : Nat)
  | docCount (index segment : Nat)
  | versionMismatch (index data : Nat)
  | chunkSize (size : Nat)
  | maxPointerPastFooter (maxPointer footer : Nat)
  | chunkCounts (numChunks numDirtyChunks indexed : Nat)
  | statsEnd (position footer : Nat)
  | documentOutsideChunk (id docBase chunkDocs numDocs : Nat)
  | emptyMismatch (length numStoredFields : Nat)
  | decompressedLength (actual expected : Nat)
  | typeFlag (tag : Nat)
  | fieldKey (key : Nat)
  | fieldNumber (number : Nat)
  | fieldData (fault : Fault)
  | fieldText (name : String) (error : Text.Utf8Error)
  | leftoverBytes (count : Nat)
  deriving DecidableEq, Repr

/-- The words for a fault inside another message. -/
def Fault.text (f : Fault) : String :=
  f.message.getD ""

/-- The damage in words. -/
def Damage.message : Damage → String
  | decoding context fault => context.message ++ ": " ++ fault.text
  | tooShortForFooter size => s!"file is too short ({size} bytes) to contain a footer"
  | checksumAlgorithm algorithm => s!"unknown checksum algorithm={algorithm}"
  | illegalChecksum checksum => "illegal checksum: " ++ Text.hexWord 16 checksum
  | bitsPerValue bits => s!"bitsPerValue={bits}"
  | bitsPerDocBase bits => s!"bitsPerDocBase={bits}"
  | bitsPerStartPointer bits => s!"bitsPerStartPointer={bits}"
  | blockPastEnd chunks => s!"block of {chunks} chunks runs past the end of the index"
  | firstDocBase docBase => s!"first block starts at docBase={docBase}"
  | chunkOutOfOrder chunk block docBase startPointer =>
    s!"chunk {chunk} of block {block} is out of order: docBase={docBase}, " ++
      s!"startPointer={startPointer}"
  | indexEndsEarly numDocs maxPointer =>
    s!"index ends at numDocs={numDocs}, maxPointer={maxPointer}, before its last chunk"
  | trailingBytes count => s!"{count} unexpected trailing bytes"
  | docCount index segment => s!"index covers {index} docs, but segment has {segment}"
  | versionMismatch index data =>
    s!"Version mismatch between stored fields index and data: {index} != {data}"
  | chunkSize size => s!"chunkSize={size}"
  | maxPointerPastFooter maxPointer footer =>
    s!"maxPointer={maxPointer} is past the footer at {footer}"
  | chunkCounts numChunks numDirtyChunks indexed =>
    s!"invalid chunk counts: numChunks={numChunks}, numDirtyChunks={numDirtyChunks}, " ++
      s!"indexed={indexed}"
  | statsEnd position footer =>
    s!"chunk stats end at {position}, but the footer starts at {footer}"
  | documentOutsideChunk id docBase chunkDocs numDocs =>
    s!"docID={id}, docBase={docBase}, chunkDocs={chunkDocs}, numDocs={numDocs}"
  | emptyMismatch length numStoredFields =>
    s!"length={length}, numStoredFields={numStoredFields}"
  | decompressedLength actual expected => s!"decompressed {actual} bytes, expected {expected}"
  | typeFlag tag => s!"unknown type flag: {tag}"
  | fieldKey key => s!"field key out of range: {key}"
  | fieldNumber number => s!"unknown field number {number}"
  | fieldData fault => "bad field data: " ++ fault.text
  | fieldText name error => "field " ++ Text.quote name ++ ": " ++ error.message
  | leftoverBytes count => s!"{count} bytes left over after the last field"

/-- A way in which a header or a footer can fail to be one of this format. -/
inductive HeaderProblem where
  | magic (actual expected : Nat)
  | nameTooLong (length : Nat)
  | name (actual : Bytes) (expected : String)
  | footerMagic (actual expected : Nat)
  deriving DecidableEq, Repr

/-- The problem in words. -/
def HeaderProblem.message : HeaderProblem → String
  | magic actual expected =>
    "codec header mismatch: actual header=" ++ Text.hexWord 8 actual ++
      " vs expected header=" ++ Text.hexWord 8 expected
  | nameTooLong length => s!"codec name length {length} is too long"
  | name actual expected =>
    "codec mismatch: actual codec=" ++ Text.quote (Text.lossy actual) ++
      " vs expected codec=" ++ Text.quote expected
  | footerMagic actual expected =>
    "codec footer mismatch: actual footer=" ++ Text.hexWord 8 actual ++
      " vs expected footer=" ++ Text.hexWord 8 expected

/-- A way in which a compressed frame can fail to give its raw bytes. -/
inductive FrameProblem where
  /-- The raw length is zero or more than any frame of the file may hold. -/
  | exceededSize (limit claimed : Nat)
  | pastEndOfFile
  | endedEarly
  | lengthMismatch
  | shorterThanPromised
  /-- No compression is known by this tag. -/
  | unknownType (tag : Nat)
  /-- The compressed bytes are not well formed. -/
  | malformed
  deriving DecidableEq, Repr

/-- The problem in words. A malformed frame is described by whoever decodes it. -/
def FrameProblem.message : FrameProblem → Option String
  | exceededSize limit claimed =>
    some s!"Frame claims {claimed} raw bytes, larger than the max of {limit}"
  | pastEndOfFile => some "Frame runs past the end of the file"
  | endedEarly => some "Frame ended early"
  | lengthMismatch => some "Uncompressed frame length doesn't match raw length"
  | shorterThanPromised => some "Decompressed size is smaller than promised size"
  | unknownType tag => some s!"Unknown compression type {tag}"
  | malformed => none

/-! ### Errors -/

/-- Why an operation on a segment's files fails. -/
inductive Error where
  /-- The storage failed. -/
  | io (fault : Fault)
  /-- The named file contradicts the format or itself. -/
  | corrupt (resource : String) (damage : Damage)
  /-- The named file does not begin or end as files of this format do. -/
  | badHeader (resource : String) (problem : HeaderProblem)
  /-- The named file has a version outside the range that can be read. -/
  | unsupportedVersion (resource : String) (version min max : Nat)
  /-- The checksum kept in the named file is not that of its bytes. -/
  | checksumMismatch (resource : String) (expected actual : Nat)
  /-- A compressed frame of the named file cannot be read. -/
  | failDecompress (resource : String) (problem : FrameProblem)
  deriving DecidableEq, Repr

namespace Error

/-- Does the error mean that the stored data is damaged? -/
def isCorruption : Error → Bool
  | io _ => false
  | _ => true

/-- Does the error pass on another one? -/
def hasSource : Error → Bool
  | io _ | failDecompress .. => true
  | _ => false

/-- The error that a fault means while `resource` is decoded: malformed bytes are damage, anything
else is the storage failing. -/
def decoding (resource : String) (context : DecodingContext) (fault : Fault) : Error :=
  if fault.isMalformed then .corrupt resource (.decoding context fault) else .io fault

/-- The error in words, unless it comes from where words are not kept. -/
def message : Error → Option String
  | io fault => fault.message.map ("I/O failure: " ++ ·)
  | corrupt resource damage =>
    some ("Corrupt stored fields (" ++ resource ++ "): " ++ damage.message)
  | badHeader resource problem =>
    some ("Bad codec header (" ++ resource ++ "): " ++ problem.message)
  | unsupportedVersion resource version min max =>
    some (s!"Unsupported format version {version} in {resource}, " ++
      s!"must be between {min} and {max}")
  | checksumMismatch resource expected actual =>
    some ("Checksum failed for " ++ resource ++ ": expected " ++ Text.hexWord 8 expected ++
      ", actual " ++ Text.hexWord 8 actual)
  | failDecompress resource problem =>
    problem.message.map fun text =>
      "Failed decompression step (" ++ resource ++ "): " ++ text

end Error

/-! ### Violations -/

/-- A condition that the caller had to establish and did not. -/
inductive Violation where
  | bitWidth (bits : Nat)
  | tooManyValues
  | valueTooWide (value bits : Nat)
  | missingValues
  | indexOutOfBounds (index size : Nat)
  /-- The array rule has no form for an empty list. -/
  | emptyList
  | codecName (name : String)
  | chunkSize (size : Nat)
  | indexBlockSize
  | blockSize
  | docOutOfRange (maxDoc id : Nat)
  | documentOpen
  | writeOutsideDocument
  | finishOutsideDocument
  | finishInsideDocument
  /-- There is no length to which the array of a chunk's bytes could grow. -/
  | bufferFull
  /-- A word counts the fields of a document. -/
  | fieldCount
  | chunkTooLarge (size : Nat)
  /-- Where no document waits, no bytes do. -/
  | bytesWithoutDocument
  | negativeLength (document : Nat)
  | flushAfterFinish
  | docsWritten (written claimed : Nat)
  | docsIndexed (claimed indexed : Nat)
  | finishedTwice
  /-- A chunk may not start before the one recorded last. -/
  | pointerOrder
  /-- A header that was accepted has the length of the one that is written. -/
  | headerLength
  /-- A slice lies within the bytes it is taken from. -/
  | sliceOutOfRange
  /-- A document is not looked up in a block that begins after it. -/
  | docBeforeBlock
  /-- As many bytes of a document are produced as it has. -/
  | producedLength
  /-- A field that is found by name has an entry under its number. -/
  | fieldEntry
  /-- There is a number left for a new field. -/
  | fieldNumbers
  deriving DecidableEq, Repr

/-- The violated condition in words, where there are any. -/
def Violation.message : Violation → Option String
  | bitWidth bits => some s!"invalid bits per value: {bits}"
  | tooManyValues => some "too many values added"
  | valueTooWide value bits => some s!"value {value} doesn't fit in {bits} bits"
  | missingValues => some "not all values were added"
  | indexOutOfBounds index size => some s!"index {index} out of bounds ({size})"
  | emptyList => none
  | codecName name => some ("invalid codec name: " ++ Text.quote name)
  | chunkSize size => some s!"chunk_size must be in 1..=2^30, got {size}"
  | indexBlockSize => some "index_block_size must be at least 1"
  | blockSize => some "index block size must be at least 1"
  | docOutOfRange maxDoc id => some s!"docID out of range [0-{maxDoc}]: {id}"
  | documentOpen => some "previous document was not finished"
  | writeOutsideDocument => some "write_field called outside of a document"
  | finishOutsideDocument => some "finish_document called outside of a document"
  | finishInsideDocument => some "finish called with an unfinished document"
  | bufferFull => some "attempt to subtract with overflow"
  | fieldCount => some "attempt to add with overflow"
  | chunkTooLarge size =>
    some s!"chunk buffer holds {size} bytes, more than a chunk can address"
  | bytesWithoutDocument => none
  | negativeLength document => some s!"negative length for document {document} of chunk"
  | flushAfterFinish => some "chunk flushed after finish"
  | docsWritten written claimed =>
    some s!"Wrote {written} docs, finish called with num_docs={claimed}"
  | docsIndexed claimed indexed => some s!"Expected {claimed} docs, but got {indexed}"
  | finishedTwice => some "finish called twice"
  | pointerOrder => none
  | headerLength => some "assertion `left == right` failed"
  | sliceOutOfRange => none
  | docBeforeBlock => some "attempt to subtract with overflow"
  | producedLength => some "assertion `left == right` failed"
  | fieldEntry => some "no entry found for key"
  | fieldNumbers => some "attempt to add with overflow"

/-- How an operation can end without an answer: its caller broke a rule, or it failed. -/
inductive Stop (ε : Type) where
  | refused (violation : Violation)
  | failed (error : ε)
  deriving DecidableEq, Repr

/-- Restate the cause of a failure. -/
def Stop.map {ε ε' : Type} (f : ε → ε') : Stop ε → Stop ε'
  | refused violation => refused violation
  | failed error => failed (f error)

namespace Step

variable {σ ε α : Type}

/-- Stop because the caller broke a rule. -/
def refuse (v : Violation) : Step σ (Stop ε) α :=
  fail (.refused v)

/-- Stop with an error. -/
def throw (e : ε) : Step σ (Stop ε) α :=
  fail (.failed e)

/-- Go on only under a condition that the caller had to establish. -/
def require (condition : Bool) (v : Violation) : Step σ (Stop ε) Unit :=
  if condition then pure () else refuse v

/-- Use a step that cannot be refused. -/
def mayFail (x : Step σ ε α) : Step σ (Stop ε) α :=
  x.mapError .failed

/-- Use a step whose faults are the storage's. -/
def io (x : Step σ Fault α) : Step σ (Stop Error) α :=
  x.mapError fun fault => .failed (.io fault)

/-- Use a step whose faults mean that `resource` is malformed. -/
def decoding (resource : String) (context : DecodingContext) (x : Step σ Fault α) :
    Step σ (Stop Error) α :=
  x.mapError fun fault => .failed (.decoding resource context fault)

/-- Answer or stop as `r` says. -/
def ofChecked (r : Except Violation α) : Step σ (Stop ε) α :=
  ofExcept (r.mapError .refused)

end Step

end DocStore
