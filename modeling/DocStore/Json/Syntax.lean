import DocStore.Json.Value
import DocStore.Text.Utf8

/-!
# JSON as it is written

`Json.Form` is a JSON text before its strings are understood. A string is a row of units, each the
code point of a character or the number of an escape. An escape may be half of a surrogate pair,
and whether a half without its other half is acceptable depends on what the string is used for:

* as a text (`Literal.text?`) it has to be complete, and controls have to be escaped;
* as bytes (`Literal.bytes`) anything goes, and a lone half takes three bytes like any other unit of
  its size;
* a string that nobody asks for only has to have its controls escaped.

`Form.value?` is the value of a text all of whose strings are texts.
-/

namespace DocStore.Json

/-! ### Strings -/

/-- A string as it is written. -/
structure Literal where
  /-- Code points of characters, and numbers of escapes. -/
  units : List Nat
  /-- Does a control stand in it without being escaped? -/
  hasControl : Bool
  deriving DecidableEq, Repr

/-- Is the unit the first half of a pair? -/
def isHighHalf (unit : Nat) : Bool :=
  0xD800 ≤ unit && unit < 0xDC00

/-- Is the unit the second half of a pair? -/
def isLowHalf (unit : Nat) : Bool :=
  0xDC00 ≤ unit && unit < 0xE000

/-- The code point that two halves make. -/
def joinHalves (high low : Nat) : Nat :=
  0x10000 + (high - 0xD800) * 0x400 + (low - 0xDC00)

/-- The units with two halves that follow each other joined, after those in `done`, which come in
reverse. -/
def joinUnits (done : List Nat) : List Nat → List Nat
  | [] => done.reverse
  | [unit] => (unit :: done).reverse
  | high :: low :: rest =>
    if isHighHalf high && isLowHalf low then joinUnits (joinHalves high low :: done) rest
    else joinUnits (high :: done) (low :: rest)

namespace Literal

/-- The code points of the string, halves without their other half included. -/
def codePoints (l : Literal) : List Nat :=
  joinUnits [] l.units

/-- The string as a text. -/
def text? (l : Literal) : Option String :=
  let points := l.codePoints
  if l.hasControl || points.any (fun p => isHighHalf p || isLowHalf p) then none
  else some (String.ofList (points.map Char.ofNat))

/-- The string as bytes. -/
def bytes (l : Literal) : Bytes :=
  l.codePoints.flatMap Text.encodeCodePoint

end Literal

/-! ### Values -/

/-- A JSON text. -/
inductive Form where
  | null
  | bool (value : Bool)
  | number (value : Number)
  | string (value : Literal)
  | array (items : List Form)
  | object (members : List (Literal × Form))
  deriving Repr

namespace Form

mutual

/-- The value of a text. -/
def value? : Form → Option Json
  | null => some .null
  | bool value => some (.bool value)
  | number value => some (.number value)
  | string value => value.text?.map .string
  | array items => (itemValues? items).map .array
  | object members => (memberValues? members).map .object

/-- The values of the items of an array. -/
def itemValues? : List Form → Option (List Json)
  | [] => some []
  | item :: items => do
    let value ← value? item
    let values ← itemValues? items
    pure (value :: values)

/-- The values of the members of an object. -/
def memberValues? : List (Literal × Form) → Option (List (String × Json))
  | [] => some []
  | (name, form) :: members => do
    let name ← name.text?
    let value ← value? form
    let values ← memberValues? members
    pure ((name, value) :: values)

end

mutual

/-- May the text stand where nobody asks for it? -/
def isIdle : Form → Bool
  | string value => !value.hasControl
  | array items => areIdle items
  | object members => areIdleMembers members
  | _ => true

/-- May the items of an array stand where nobody asks for them? -/
def areIdle : List Form → Bool
  | [] => true
  | item :: items => isIdle item && areIdle items

/-- May the members of an object stand where nobody asks for them? -/
def areIdleMembers : List (Literal × Form) → Bool
  | [] => true
  | (name, form) :: members => !name.hasControl && isIdle form && areIdleMembers members

end

/-- The number of a form. -/
def number? : Form → Option Number
  | number n => some n
  | _ => none

/-- The integer of a form, if it is an unsigned one of so many bits. -/
def unsigned? (bits : Nat) (form : Form) : Option Nat :=
  form.number?.bind (·.unsigned? bits)

/-- The integer of a form, if it is a signed one of so many bits. -/
def signed? (bits : Nat) (form : Form) : Option Int :=
  form.number?.bind (·.signed? bits)

/-- The text of a string. -/
def text? : Form → Option String
  | string value => value.text?
  | _ => none

/-- The items of an array. -/
def items? : Form → Option (List Form)
  | array items => some items
  | _ => none

/-- The members of an object, whose names have to be texts. -/
def members? : Form → Option (List (String × Form))
  | object members => members.mapM fun (name, form) => name.text?.map fun name => (name, form)
  | _ => none

/-- The parts of a record in the order of `names`, with `none` for those that are missing. Other
names are passed over. -/
def parts? (names : List String) : Form → Option (List (Option Form))
  | array items => listedParts? names items
  | form => do
    let members ← form.members?
    let idle := members.filter fun m => !names.contains m.1
    if idle.all fun m => m.2.isIdle then namedParts? names members else none

end Form

end DocStore.Json
