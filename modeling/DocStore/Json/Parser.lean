import DocStore.Json.Syntax

/-!
# Reading JSON texts

`Json.Form.parse?` reads a text that holds one value and, around and inside it, blanks. Numbers may
not begin with superfluous zeros. `Json.parse?` answers the value, in which strings may not contain
raw control characters, and the two halves of an escaped surrogate pair have to come together.
-/

namespace DocStore.Json

/-- The characters that may stand between the tokens of a text. -/
def isBlank (c : Char) : Bool :=
  c = ' ' || c = '\n' || c = '\t' || c = '\r'

/-- The text from its first token on. -/
def skipBlanks (text : List Char) : List Char :=
  text.dropWhile isBlank

/-! ### Numbers -/

/-- One decimal digit or more, and what follows them. -/
def readDigits (text : List Char) : Option (List Char × List Char) :=
  match text.span Char.isDigit with
  | ([], _) => none
  | (digits, rest) => some (digits, rest)

/-- The digits of a fraction, none if there is no decimal point. -/
def readFraction : List Char → Option (Option (List Char) × List Char)
  | '.' :: rest => do
    let (digits, rest) ← readDigits rest
    pure (some digits, rest)
  | text => some (none, text)

/-- The exponent of a number, if there is one. -/
def readExponent : List Char → Option (Option Int × List Char)
  | c :: rest =>
    if c = 'e' || c = 'E' then do
      let (negative, rest) := match rest with
        | '-' :: rest => (true, rest)
        | '+' :: rest => (false, rest)
        | rest => (false, rest)
      let (digits, rest) ← readDigits rest
      let n : Int := ofDigits digits
      pure (some (if negative then -n else n), rest)
    else some (none, c :: rest)
  | [] => some (none, [])

/-- The number at the beginning of a text. -/
def readNumber (text : List Char) : Option (Number × List Char) := do
  let (negative, rest) := match text with
    | '-' :: rest => (true, rest)
    | rest => (false, rest)
  let (whole, rest) ← readDigits rest
  if whole.head? = some '0' ∧ whole.length ≠ 1 then none
  else
    let (fraction, rest) ← readFraction rest
    let (exponent, rest) ← readExponent rest
    pure (⟨negative, ofDigits whole, fraction, exponent⟩, rest)

/-! ### Strings -/

/-- The value of a hexadecimal digit. -/
def hexDigit? (c : Char) : Option Nat :=
  let n := c.toNat
  if 48 ≤ n ∧ n ≤ 57 then some (n - 48)
  else if 97 ≤ n ∧ n ≤ 102 then some (n - 87)
  else if 65 ≤ n ∧ n ≤ 70 then some (n - 55)
  else none

/-- The character that stands for itself after a backslash, or for a control. -/
def escaped? : Char → Option Char
  | '"' => some '"'
  | '\\' => some '\\'
  | '/' => some '/'
  | 'b' => some '\x08'
  | 'f' => some '\x0c'
  | 'n' => some '\n'
  | 'r' => some '\r'
  | 't' => some '\t'
  | _ => none

/-- The string whose closing quote follows, after the units in `done`, which come in reverse. -/
def readUnits (done : List Nat) (hasControl : Bool) : List Char → Option (Literal × List Char)
  | '"' :: rest => some (⟨done.reverse, hasControl⟩, rest)
  | '\\' :: 'u' :: a :: b :: c :: d :: rest => do
    let unit := (← [a, b, c, d].mapM hexDigit?).foldl (fun n digit => 16 * n + digit) 0
    readUnits (unit :: done) hasControl rest
  | '\\' :: c :: rest => do
    let c ← escaped? c
    readUnits (c.toNat :: done) hasControl rest
  | c :: rest => readUnits (c.toNat :: done) (hasControl || c.toNat < 32) rest
  | [] => none

/-- The string after its opening quote. -/
def readLiteral (text : List Char) : Option (Literal × List Char) :=
  readUnits [] false text

/-! ### Values -/

mutual

/-- The value at the beginning of a text. Each value, item and member takes one of the `fuel`. -/
def readValue : (fuel : Nat) → List Char → Option (Form × List Char)
  | 0, _ => none
  | fuel + 1, text =>
    match skipBlanks text with
    | 'n' :: 'u' :: 'l' :: 'l' :: rest => some (.null, rest)
    | 't' :: 'r' :: 'u' :: 'e' :: rest => some (.bool true, rest)
    | 'f' :: 'a' :: 'l' :: 's' :: 'e' :: rest => some (.bool false, rest)
    | '"' :: rest => (readLiteral rest).map fun (value, rest) => (.string value, rest)
    | '[' :: rest =>
      match skipBlanks rest with
      | ']' :: rest => some (.array [], rest)
      | rest => readItems fuel [] rest
    | '{' :: rest =>
      match skipBlanks rest with
      | '}' :: rest => some (.object [], rest)
      | rest => readMembers fuel [] rest
    | rest => (readNumber rest).map fun (value, rest) => (.number value, rest)

/-- The array whose next item begins here, after those in `done`, which come in reverse. -/
def readItems : (fuel : Nat) → (done : List Form) → List Char → Option (Form × List Char)
  | 0, _, _ => none
  | fuel + 1, done, text => do
    let (item, rest) ← readValue fuel text
    match skipBlanks rest with
    | ',' :: rest => readItems fuel (item :: done) rest
    | ']' :: rest => some (.array (item :: done).reverse, rest)
    | _ => none

/-- The object whose next member begins here, after those in `done`, which come in reverse. -/
def readMembers : (fuel : Nat) → (done : List (Literal × Form)) → List Char →
    Option (Form × List Char)
  | 0, _, _ => none
  | fuel + 1, done, text =>
    match skipBlanks text with
    | '"' :: rest => do
      let (name, rest) ← readLiteral rest
      match skipBlanks rest with
      | ':' :: rest => do
        let (value, rest) ← readValue fuel rest
        match skipBlanks rest with
        | ',' :: rest => readMembers fuel ((name, value) :: done) rest
        | '}' :: rest => some (.object ((name, value) :: done).reverse, rest)
        | _ => none
      | _ => none
    | _ => none

end

/-- The text as it is written. Every value, item or member takes a character at least, and no
character opens more than two of them. -/
def Form.parse? (text : String) : Option Form := do
  let chars := text.toList
  let (form, rest) ← readValue (2 * chars.length + 2) chars
  if (skipBlanks rest).isEmpty then some form else none

/-- The value of a text. -/
def parse? (text : String) : Option Json :=
  (Form.parse? text).bind Form.value?

/-- The integer that a whole text writes. -/
def Number.parseInt? (text : String) : Option Int := do
  let (n, rest) ← readNumber text.toList
  if rest.isEmpty then n.toInt? else none

end DocStore.Json
