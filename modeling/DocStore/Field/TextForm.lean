import DocStore.Field.Table
import DocStore.Field.Value
import DocStore.Json.Approximate
import DocStore.Json.Parser
import DocStore.Json.Shortest

/-!
# The text form of fields

A value is written as an object whose only name is its type. A field table is an object with the
fields by their numbers and the numbers by their names. A table is taken as it is written: whether
its two parts agree is not checked.
-/

namespace DocStore

/-! ### Values -/

/-- A number by its bits, or nothing if it has no digits. -/
def Json.ofBits (format : Json.FloatFormat) (layout : Json.FloatLayout) (bits : Nat) : Json :=
  match Json.Number.ofBits? format layout bits with
  | some n => .number n
  | none => .null

namespace FieldValue

/-- The text form of a value. -/
def toJson (value : FieldValue) : Json :=
  let form := match value with
    | text value => .string value
    | binary value => .array (value.map fun b => .int b.toNat)
    | int value => .int value.toInt
    | float bits => .ofBits .single .single bits.toNat
    | long value => .int value.toInt
    | double bits => .ofBits .double .double bits.toNat
  .object [(value.type.name, form)]

/-- The bytes of a form: the numbers of an array, or what a string holds. -/
def bytesOfForm? : Json.Form → Option Bytes
  | .array items => items.mapM fun item => (item.unsigned? 8).map UInt8.ofNat
  | .string value => some value.bytes
  | _ => none

/-- The value of a type with a form. -/
def ofTypeAndForm? (type : String) (form : Json.Form) : Option FieldValue :=
  match type with
  | "String" => form.text?.map text
  | "Binary" => (bytesOfForm? form).map binary
  | "Int" => (form.signed? 32).map fun i => int (Int32.ofInt i)
  | "Float" => form.number?.bind fun n => n.toBits32?.map float
  | "Long" => (form.signed? 64).map fun i => long (Int64.ofInt i)
  | "Double" => form.number?.bind fun n => n.toBits64?.map double
  | _ => none

/-- The value with a text form. -/
def ofForm? : Json.Form → Option FieldValue
  | .object [(type, form)] => type.text?.bind fun type => ofTypeAndForm? type form
  | _ => none

end FieldValue

/-! ### Tables -/

/-- The field with a text form. -/
def FieldInfo.ofJson? (j : Json) : Option FieldInfo := do
  let [some name, some number] ← j.parts? ["name", "number"] true | none
  pure ⟨← name.string?, UInt32.ofNat (← number.unsigned? 32)⟩

namespace FieldTable

/-- A field under its number, which is written as a decimal. -/
def entryOfJson? (m : String × Json) : Option (UInt32 × FieldInfo) := do
  let key ← Json.Number.parseInt? m.1
  if 0 ≤ key ∧ key < 2 ^ 32 then pure (UInt32.ofNat key.toNat, ← FieldInfo.ofJson? m.2) else none

/-- A number under its name. -/
def numberOfJson? (m : String × Json) : Option (String × UInt32) := do
  pure (m.1, UInt32.ofNat (← m.2.unsigned? 32))

/-- The dictionary of some pairs, of which the last counts for each key. -/
def dictionary {κ α : Type} [DecidableEq κ] (pairs : List (κ × α)) : Dictionary κ α :=
  pairs.foldl (fun d (key, value) => Dictionary.insert d key value) []

/-- The table with a text form. -/
def ofJson? (j : Json) : Option FieldTable := do
  let [some byNumber, some byName] ← j.parts? ["by_number", "by_name"] true | none
  pure
    { byNumber := dictionary (← (← byNumber.members?).mapM entryOfJson?)
      byName := dictionary (← (← byName.members?).mapM numberOfJson?) }

end FieldTable

end DocStore
