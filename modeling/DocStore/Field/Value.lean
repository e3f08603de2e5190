import DocStore.Error
import DocStore.VarInt

/-!
# Field values

A stored field has one of six types. Inside a chunk a field is a key, which holds the field's
number and the tag of its type, and then the value:

| type   | form                            |
|--------|---------------------------------|
| text   | length as a vint, UTF-8         |
| binary | length as a vint, bytes         |
| int    | signed variable-length integer  |
| float  | IEEE 754 bits, 32 of them       |
| long   | signed variable-length integer  |
| double | IEEE 754 bits, 64 of them       |

A value can be read (`decodeValue`) or passed over (`skipValue`). Passing over looks at no more
than where the value ends.
-/

namespace DocStore

/-- The type of a stored value. -/
inductive FieldType where
  | text
  | binary
  | int
  | float
  | long
  | double
  deriving DecidableEq, Repr

namespace FieldType

/-- The number that stands for the type in a key. -/
def tag : FieldType → Nat
  | text => 0
  | binary => 1
  | int => 2
  | float => 3
  | long => 4
  | double => 5

/-- The type with a tag. -/
def ofTag? : Nat → Option FieldType
  | 0 => some text
  | 1 => some binary
  | 2 => some int
  | 3 => some float
  | 4 => some long
  | 5 => some double
  | _ => none

/-- The type's name in texts. -/
def name : FieldType → String
  | text => "String"
  | binary => "Binary"
  | int => "Int"
  | float => "Float"
  | long => "Long"
  | double => "Double"

end FieldType

/-- A stored value. Floating-point numbers are kept as their bits. -/
inductive FieldValue where
  | text (value : String)
  | binary (value : Bytes)
  | int (value : Int32)
  | float (bits : UInt32)
  | long (value : Int64)
  | double (bits : UInt64)
  deriving DecidableEq, Repr

namespace FieldValue

/-- The type of the value. -/
def type : FieldValue → FieldType
  | text _ => .text
  | binary _ => .binary
  | int _ => .int
  | float _ => .float
  | long _ => .long
  | double _ => .double

/-- The text of a text value. -/
def asText? : FieldValue → Option String
  | text value => some value
  | _ => none

/-- The bytes of a binary value. -/
def asBytes? : FieldValue → Option Bytes
  | binary value => some value
  | _ => none

end FieldValue

/-! ### Keys -/

/-- How many kinds of fields a key can tell apart: the tag takes three bits. -/
def tagRange : Nat := 8

/-- The key of a field with this number and type. -/
def fieldKey (number : UInt32) (type : FieldType) : Nat :=
  number.toNat * tagRange + type.tag

/-- The number and type in a key. -/
def splitKey (resource : String) (key : Nat) : Except Error (UInt32 × FieldType) :=
  match FieldType.ofTag? (key % tagRange) with
  | none => .error (.corrupt resource (.typeFlag (key % tagRange)))
  | some type =>
    if key / tagRange < 2 ^ 32 then .ok (UInt32.ofNat (key / tagRange), type)
    else .error (.corrupt resource (.fieldKey key))

/-! ### Forms of values -/

/-- What stands before a value of so many bytes: its length, which has to fit in a vint. -/
def valueLength (length : Nat) : Except Fault Pieces :=
  if length < 2 ^ 32 then .ok (bytewise (VarInt.encode length)) else .error (.valueTooLong length)

/-- The writes that a value is made of: numbers of variable length come byte by byte, and anything
else comes whole. -/
def valuePieces : FieldValue → Except Fault Pieces
  | .text value => do
    let length ← valueLength value.utf8ByteSize
    pure (length ++ [utf8Bytes value])
  | .binary value => do
    let length ← valueLength value.length
    pure (length ++ [value])
  | .int value => .ok (bytewise (VarInt.encodeSigned value.toInt))
  | .float bits => .ok [bigEndian 4 bits.toNat]
  | .long value => .ok (bytewise (VarInt.encodeSigned value.toInt))
  | .double bits => .ok [bigEndian 8 bits.toNat]

/-- The form of a value. -/
def encodeValue (value : FieldValue) : Except Fault Bytes :=
  (valuePieces value).map List.flatten

/-- Read bytes with their length before them. -/
def readSlice : Decoder Fault Bytes := do
  let length ← VarInt.vint
  let c ← Step.get
  if (c.rest.take length).length < length then Step.fail .valuePastDocument
  else Source.take length

/-- Read a value of the type, of the field with this name. -/
def decodeValue (resource name : String) : FieldType → Decoder Error FieldValue
  | .text => do
    let bytes ← readSlice.mapError malformed
    match Text.decodeUtf8 bytes with
    | .ok value => pure (.text value)
    | .error e => Step.fail (.corrupt resource (.fieldText name e))
  | .binary => do
    let bytes ← readSlice.mapError malformed
    pure (.binary bytes)
  | .int => do
    let value ← VarInt.zint.mapError malformed
    pure (.int (Int32.ofInt value))
  | .float => do
    let bits ← (Source.word 4).mapError malformed
    pure (.float (UInt32.ofNat bits))
  | .long => do
    let value ← VarInt.zlong.mapError malformed
    pure (.long (Int64.ofInt value))
  | .double => do
    let bits ← (Source.word 8).mapError malformed
    pure (.double (UInt64.ofNat bits))
where
  /-- A fault inside a document is damage of the file it comes from. -/
  malformed (fault : Fault) : Error :=
    .corrupt resource (.fieldData fault)

/-- Pass over a value of the type. -/
def skipValue : FieldType → Decoder Fault Unit
  | .text | .binary => do
    let _ ← readSlice
    pure ()
  | .int | .long => do
    let _ ← VarInt.vlong
    pure ()
  | .float => do
    let _ ← Source.take 4
    pure ()
  | .double => do
    let _ ← Source.take 8
    pure ()

end DocStore
