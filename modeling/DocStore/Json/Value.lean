import DocStore.Bytes

/-!
# JSON values

A value of a JSON text. An object keeps its members in the order of the text, repeated names
included, and a number keeps its decimal digits: what a repeated name or a long number means is for
those to say who read the value.

A record, that is a value with a fixed list of named parts, has two forms: an object with these
names, or an array with the parts in order. `Json.parts?` reads both.
-/

namespace DocStore

/-- A number of a JSON text. -/
structure Json.Number where
  negative : Bool
  /-- What stands before the decimal point. -/
  whole : Nat
  /-- The digits after the decimal point, if there is one. -/
  fraction : Option (List Char)
  /-- The power of ten, if one is named. -/
  exponent : Option Int
  deriving DecidableEq, Repr

/-- A JSON value. -/
inductive Json where
  | null
  | bool (value : Bool)
  | number (value : Json.Number)
  | string (value : String)
  | array (items : List Json)
  | object (members : List (String × Json))
  deriving Repr

namespace Json

/-- The value of a decimal digit. -/
def digitValue (digit : Char) : Nat :=
  digit.toNat - '0'.toNat

/-- The number that decimal digits write. -/
def ofDigits (digits : List Char) : Nat :=
  digits.foldl (fun n digit => 10 * n + digitValue digit) 0

/-- The number that an integer is written as. -/
def Number.ofInt (i : Int) : Number :=
  ⟨decide (i < 0), i.natAbs, none, none⟩

/-- The integer that is written so. A zero with a sign is not one. -/
def Number.toInt? (n : Number) : Option Int :=
  match n with
  | ⟨false, n, none, none⟩ => some n
  | ⟨true, n + 1, none, none⟩ => some (-((n : Int) + 1))
  | _ => none

/-- The value of an integer. -/
def int (i : Int) : Json :=
  number (.ofInt i)

/-- The integer, if it is an unsigned one of so many bits. -/
def Number.unsigned? (bits : Nat) (n : Number) : Option Nat :=
  (n.toInt?.filter fun i => decide (0 ≤ i ∧ i < 2 ^ bits)).map Int.toNat

/-- The integer, if it is a signed one of so many bits. -/
def Number.signed? (bits : Nat) (n : Number) : Option Int :=
  n.toInt?.filter fun i => decide (-2 ^ (bits - 1) ≤ i ∧ i < 2 ^ (bits - 1))

/-- The number of a value. -/
def number? : Json → Option Number
  | number n => some n
  | _ => none

/-- The integer of a value, if it is an unsigned one of so many bits. -/
def unsigned? (bits : Nat) (j : Json) : Option Nat :=
  j.number?.bind (·.unsigned? bits)

/-- The integer of a value, if it is a signed one of so many bits. -/
def signed? (bits : Nat) (j : Json) : Option Int :=
  j.number?.bind (·.signed? bits)

/-- The text of a value. -/
def string? : Json → Option String
  | string value => some value
  | _ => none

/-- The items of an array. -/
def items? : Json → Option (List Json)
  | array items => some items
  | _ => none

/-- The members of an object. -/
def members? : Json → Option (List (String × Json))
  | object members => some members
  | _ => none

/-- The first member with a name. -/
def member? (name : String) : Json → Option Json
  | object members => (members.find? fun m => m.1 == name).map (·.2)
  | _ => none

/-- The parts of a record that an array gives in the order of `names`, with `none` for those that
are missing at its end. -/
def listedParts? {α : Type} (names : List String) (items : List α) : Option (List (Option α)) :=
  if items.length ≤ names.length then
    some (items.map some ++ List.replicate (names.length - items.length) none)
  else none

/-- The parts of a record that an object gives, in the order of `names`, with `none` for those that
are missing. None of the names may be repeated. -/
def namedParts? {α : Type} (names : List String) (members : List (String × α)) :
    Option (List (Option α)) :=
  let values := names.map fun name => (members.filter fun m => m.1 == name).map (·.2)
  if values.all (·.length ≤ 1) then some (values.map List.head?) else none

/-- The parts of a record in the order of `names`, with `none` for those that are missing. Other
names are passed over if `lenient` is set, and refused otherwise. -/
def parts? (names : List String) (lenient : Bool) : Json → Option (List (Option Json))
  | array items => listedParts? names items
  | object members =>
    if lenient || members.all fun m => names.contains m.1 then namedParts? names members else none
  | _ => none

end Json

end DocStore
