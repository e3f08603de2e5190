/-!
# Faults

A fault is what a single read, write or seek can run into: the bytes end, they do not have the
form that was asked for, or the storage itself gives up. Which of them count as damage of the data
is decided in `DocStore.Error`.
-/

namespace DocStore

/-- The coarse sort of a fault. -/
inductive FaultKind where
  | unexpectedEnd
  | invalidData
  | invalidInput
  | notFound
  | alreadyExists
  | notADirectory
  | isADirectory
  | nameTooLong
  | other
  deriving DecidableEq, Repr

/-- What a read, a write or a seek can run into. -/
inductive Fault where
  /-- Fewer bytes are left than were asked for. -/
  | endOfInput
  /-- All values of a packed array have been read. -/
  | arrayExhausted
  /-- A value's length exceeds what is left of its document. -/
  | valuePastDocument
  /-- The groups of a variable-length integer exceed 32 bits. -/
  | vintTooLarge
  /-- The groups of a variable-length integer exceed 64 bits. -/
  | vlongTooLarge
  /-- A signed integer does not fit 32 bits. -/
  | zintOutOfRange
  /-- A value is too long for its length to be written. -/
  | valueTooLong (length : Nat)
  /-- A position beyond the end of a file was asked for. -/
  | seekPastEnd (file : String) (position size : Nat)
  /-- There is no file of that name. -/
  | noSuchFile (file : String)
  /-- There is a file of that name already. -/
  | fileExists (file : String)
  /-- A name on a disk may not contain the character that ends names. -/
  | nulInName
  /-- The medium accepts no more bytes. -/
  | spaceExhausted
  /-- The medium does not deliver its bytes. -/
  | readFailed
  /-- The operating system refuses, for reasons it words itself. -/
  | system (kind : FaultKind)
  deriving DecidableEq, Repr

namespace Fault

/-- The sort of a fault. -/
def kind : Fault → FaultKind
  | endOfInput | arrayExhausted | valuePastDocument => .unexpectedEnd
  | vintTooLarge | vlongTooLarge | zintOutOfRange => .invalidData
  | valueTooLong _ | seekPastEnd .. | nulInName => .invalidInput
  | noSuchFile _ => .notFound
  | fileExists _ => .alreadyExists
  | spaceExhausted | readFailed => .other
  | system kind => kind

/-- The fault in words, unless the operating system words it. -/
def message : Fault → Option String
  | endOfInput => some "failed to fill whole buffer"
  | arrayExhausted => some "packed array exhausted"
  | valuePastDocument => some "field value runs past the end of the document"
  | vintTooLarge => some "VarInt larger than a u32"
  | vlongTooLarge => some "VarLong larger than a u64"
  | zintOutOfRange => some "ZInt out of range for an i32"
  | valueTooLong length => some s!"stored value of {length} bytes is too large"
  | seekPastEnd file position size =>
    some s!"seek to {position} past end of {file} ({size} bytes)"
  | noSuchFile file => some s!"no such file: {file}"
  | fileExists file => some s!"file already exists: {file}"
  | nulInName => some "file name contained an unexpected NUL byte"
  | spaceExhausted => some "disk full"
  | readFailed => some "disk read failed"
  | system _ => none

/-- Does the fault come from the bytes that were read, and not from the storage? -/
def isMalformed (f : Fault) : Bool :=
  match f.kind with
  | .unexpectedEnd | .invalidData | .invalidInput => true
  | _ => false

end Fault

end DocStore
