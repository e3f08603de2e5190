import DocStore.Crc32
import DocStore.Error
import DocStore.Storage.Input
import DocStore.Storage.Output
import DocStore.VarInt

/-!
# Headers and footers

Every file of the store begins with a header and ends with a footer.

* Header: a magic number of 32 bits, the name of the file's format with its length before it, and
  the version in 32 bits.
* Footer: the complement of the magic number, the checksum algorithm in 32 bits, which is always
  zero, and the CRC-32 of all bytes before it in 64 bits.

A footer can be verified over bytes at hand (`checkFooter`) or over an input (`checksumFile`); a
reader that does not want to read the whole file looks at the stored checksum alone
(`retrieveChecksum`).
-/

namespace DocStore.Framing

open Storage

/-- The first word of every file. -/
def headerMagic : Nat := 0x3FD76C17

/-- The first word of every footer. -/
def footerMagic : Nat := 0xC02893E8

/-- The length of a footer. -/
def footerLength : Nat := 16

/-- The only checksum algorithm. -/
def crcAlgorithm : Nat := 0

/-- The longest name that a header may carry. -/
def maxNameLength : Nat := 127

/-! ### Headers -/

/-- May the name stand in a header? It has to be short and plain ASCII. -/
def isCodecName (name : String) : Bool :=
  name.utf8ByteSize ≤ maxNameLength && name.toList.all fun c => c.toNat < 128

/-- What is written for a header. -/
def header (name : String) (version : Nat) : Except Violation Pieces :=
  if isCodecName name then
    .ok ([bigEndian 4 headerMagic] ++ bytewise (VarInt.encode name.utf8ByteSize) ++
      [utf8Bytes name, bigEndian 4 version])
  else .error (.codecName name)

/-- The length of a header that carries the name. -/
def headerLength (name : String) : Nat :=
  4 + VarInt.encodedLength name.utf8ByteSize + name.utf8ByteSize + 4

variable {σ : Type} [Source σ]

/-- Read a header, which has to carry the name and a version of the given range. -/
def checkHeader (resource name : String) (min max : Nat) : Step σ Error Nat := do
  let magic ← (Source.word 4).mapError .io
  if magic ≠ headerMagic then
    Step.fail (.badHeader resource (.magic magic headerMagic))
  else
    let length ← VarInt.vint.mapError .io
    if maxNameLength < length then
      Step.fail (.badHeader resource (.nameTooLong length))
    else
      let actual ← (Source.take length).mapError .io
      if actual ≠ utf8Bytes name then
        Step.fail (.badHeader resource (.name actual name))
      else
        let version ← (Source.word 4).mapError .io
        if version < min ∨ max < version then
          Step.fail (.unsupportedVersion resource version min max)
        else pure version

/-! ### Footers -/

/-- End a file with its footer. The checksum covers the first words of the footer too. -/
def writeFooter : Step Sink Fault Unit := do
  Sink.writeAll [bigEndian 4 footerMagic, bigEndian 4 crcAlgorithm]
  let s ← Step.get
  Sink.write (bigEndian 8 s.output.checksum.toNat)

/-- Read a footer, and answer the checksum in it. -/
def readFooter (resource : String) : Step σ Error Nat := do
  let magic ← (Source.word 4).mapError .io
  if magic ≠ footerMagic then
    Step.fail (.badHeader resource (.footerMagic magic footerMagic))
  else
    let algorithm ← (Source.word 4).mapError .io
    if algorithm ≠ crcAlgorithm then
      Step.fail (.corrupt resource (.checksumAlgorithm algorithm))
    else
      let checksum ← (Source.word 8).mapError .io
      if checksum / 2 ^ 32 ≠ 0 then
        Step.fail (.corrupt resource (.illegalChecksum checksum))
      else pure checksum

/-- The content before the footer of a file that is at hand, if the checksum is right. -/
def checkFooter (resource : String) (bytes : Bytes) : Except Error Bytes :=
  if bytes.length < footerLength then
    .error (.corrupt resource (.tooShortForFooter bytes.length))
  else
    let start := bytes.length - footerLength
    match (Decoder.run (readFooter resource) (bytes.drop start)).1 with
    | .error e => .error e
    | .ok expected =>
      let actual := (Crc32.checksum (bytes.take (bytes.length - 8))).toNat
      if expected ≠ actual then .error (.checksumMismatch resource expected actual)
      else .ok (bytes.take start)

/-- The checksum in the footer of a file, which is not compared with the rest of the file. -/
def retrieveChecksum : Step Input Error Nat := do
  let i ← Step.get
  if i.size < footerLength then
    Step.fail (.corrupt i.name (.tooShortForFooter i.size))
  else
    (Input.seek (i.size - footerLength)).mapError .io
    Input.decode (readFooter i.name)

/-- How much of a file is read at a time when its checksum is computed. -/
def blockLength : Nat := 16384

/-- Feed the next `remaining` bytes to a checksum register, block by block. -/
def feedBlocks (remaining : Nat) (register : UInt32) : Step Input Fault UInt32 :=
  if _h : remaining = 0 then pure register
  else do
    let bytes ← Input.readExact (min remaining blockLength)
    feedBlocks (remaining - min remaining blockLength) (Crc32.feed register bytes)
termination_by remaining
decreasing_by simp only [blockLength]; omega

/-- Read a whole file, and answer its checksum if it is the one in its footer. -/
def checksumFile : Step Input Error Nat := do
  let expected ← retrieveChecksum
  (Input.seek 0).mapError .io
  let i ← Step.get
  let register ← (feedBlocks (i.size - 8) Crc32.start).mapError .io
  let actual := (Crc32.finish register).toNat
  if expected ≠ actual then Step.fail (.checksumMismatch i.name expected actual)
  else pure actual

end DocStore.Framing
