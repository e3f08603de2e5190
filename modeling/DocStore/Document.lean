import DocStore.Field.Table
import DocStore.Field.Value

/-!
# Documents and visitors

A document is read field by field. A visitor is asked about each field before its value is looked
at, and is given the values that it wants. `Visitor.collect` gathers the values of all fields, or of
the fields with certain names, into a document.
-/

namespace DocStore

/-- A named value of a document. -/
structure StoredField where
  name : String
  value : FieldValue
  deriving DecidableEq, Repr

/-- The stored fields of a document, in the order in which they were written. -/
structure Document where
  fields : List StoredField := []
  deriving DecidableEq, Repr

namespace Document

/-- All values under a name. -/
def values (d : Document) (name : String) : List FieldValue :=
  (d.fields.filter fun f => f.name == name).map (·.value)

/-- The first value under a name. -/
def get? (d : Document) (name : String) : Option FieldValue :=
  (d.fields.find? fun f => f.name == name).map (·.value)

end Document

/-- What a visitor says to a field. -/
inductive Answer where
  /-- Give me the value. -/
  | yes
  /-- Pass over the value. -/
  | no
  /-- Pass over this field and all that follow. -/
  | stop
  deriving DecidableEq, Repr

/-- Someone who reads fields and remembers a `σ`. -/
structure Visitor (σ : Type) where
  /-- Say whether a field is wanted. -/
  ask : FieldInfo → σ → Answer × σ
  /-- Take the value of a wanted field. -/
  accept : FieldInfo → FieldValue → σ → σ

namespace Visitor

/-- Gather fields into a document: all of them, or those with a name in `wanted`. -/
def collect (wanted : Option (List String)) : Visitor Document where
  ask info d :=
    match wanted with
    | some names => (if names.contains info.name then .yes else .no, d)
    | none => (.yes, d)
  accept info value d := ⟨d.fields ++ [⟨info.name, value⟩]⟩

end Visitor

/-! ### Forms of documents -/

/-- The form of the key of a field whose value has the type. -/
def encodeKey (info : FieldInfo) (type : FieldType) : Bytes :=
  VarInt.encode (fieldKey info.number type)

/-- The form of a field inside a chunk. -/
def encodeField (info : FieldInfo) (value : FieldValue) : Except Fault Bytes := do
  let form ← encodeValue value
  pure (encodeKey info value.type ++ form)

/-- Read the key of a field. Answers the field, and the type of the value that follows. -/
def readKey (resource : String) (table : FieldTable) : Decoder Error (FieldInfo × FieldType) := do
  let key ← VarInt.vlong.mapError fun fault => .corrupt resource (.fieldData fault)
  let (number, type) ← Step.ofExcept (splitKey resource key)
  match table.ofNumber? number with
  | some info => pure (info, type)
  | none => Step.fail (.corrupt resource (.fieldNumber number.toNat))

/-- Read one field and let the visitor decide about it. Answers whether to go on. -/
def readField {σ : Type} (resource : String) (table : FieldTable) (visitor : Visitor σ) :
    Step (Cursor × σ) Error Bool := fun (c, s) =>
  match readKey resource table c with
  | (.error e, c) => (.error e, (c, s))
  | (.ok (info, type), c) =>
    match visitor.ask info s with
    | (.stop, s) => (.ok false, (c, s))
    | (.no, s) =>
      match skipValue type c with
      | (.ok (), c) => (.ok true, (c, s))
      | (.error fault, c) => (.error (.corrupt resource (.fieldData fault)), (c, s))
    | (.yes, s) =>
      match decodeValue resource info.name type c with
      | (.ok value, c) => (.ok true, (c, visitor.accept info value s))
      | (.error e, c) => (.error e, (c, s))

/-- Read `count` fields that fill the bytes, unless the visitor stops before. -/
def readFields {σ : Type} (resource : String) (table : FieldTable) (visitor : Visitor σ) :
    (count : Nat) → Step (Cursor × σ) Error Unit
  | 0, (c, s) =>
    if c.rest.isEmpty then (.ok (), (c, s))
    else (.error (.corrupt resource (.leftoverBytes c.rest.length)), (c, s))
  | count + 1, s =>
    match readField resource table visitor s with
    | (.ok true, s') => readFields resource table visitor count s'
    | (.ok false, s') => (.ok (), s')
    | (.error e, s') => (.error e, s')

/-- Read the document that `bytes` hold, with `count` fields. -/
def readDocument {σ : Type} (resource : String) (table : FieldTable) (visitor : Visitor σ)
    (bytes : Bytes) (count : Nat) : Step σ Error Unit := fun s =>
  match readFields resource table visitor count (Cursor.ofBytes bytes, s) with
  | (r, (_, s')) => (r, s')

end DocStore
