import DocStore.Dictionary
import DocStore.Error

/-!
# Field tables

A segment numbers its fields. A chunk refers to a field by its number, a caller by its name, and
the table knows both ways. A table that was loaded from a text form is taken as it is.
-/

namespace DocStore

/-- A field of a segment. -/
structure FieldInfo where
  name : String
  number : UInt32
  deriving DecidableEq, Repr

/-- The fields of a segment, by number, and the numbers of the fields, by name. -/
structure FieldTable where
  byNumber : Dictionary UInt32 FieldInfo := []
  byName : Dictionary String UInt32 := []
  deriving DecidableEq, Repr

namespace FieldTable

/-- How many fields have a number. -/
def size (t : FieldTable) : Nat :=
  t.byNumber.length

/-- The field with a number. -/
def ofNumber? (t : FieldTable) (number : UInt32) : Option FieldInfo :=
  t.byNumber.find? number

/-- The field with a name. -/
def ofName? (t : FieldTable) (name : String) : Option FieldInfo :=
  (t.byName.find? name).bind t.ofNumber?

/-- The largest number that a field can have. -/
def maxNumber : UInt32 := 0xFFFFFFFF

/-- The number after the largest one in use, if there is one. -/
def nextNumber? (t : FieldTable) : Option UInt32 :=
  match t.byNumber.keys with
  | [] => some 0
  | first :: rest =>
    let largest := rest.foldl max first
    if largest < maxNumber then some (largest + 1) else none

/-- The field with a name, which gets the next number if it is new. -/
def add (name : String) (t : FieldTable) : Except Violation (FieldInfo × FieldTable) :=
  match t.byName.find? name with
  | some number =>
    match t.byNumber.find? number with
    | some info => .ok (info, t)
    | none => .error .fieldEntry
  | none =>
    match t.nextNumber? with
    | some number =>
      let info := { name, number }
      .ok (info,
        { byNumber := t.byNumber.insert number info
          byName := t.byName.insert name number })
    | none => .error .fieldNumbers

end FieldTable

end DocStore
