import DocStore.Bytes

/-!
# UTF-8

Which byte sequences spell characters, and what is wrong with those that do not. `decode` accepts
exactly the texts that `utf8Bytes` writes; `lossy` reads anything and puts one replacement
character in the place of each longest run of bytes that begins a character and does not end it.
-/

namespace DocStore.Text

/-- What is wrong at a place of a byte sequence that is not UTF-8. -/
inductive Utf8Flaw where
  /-- The first `length` bytes begin no character. -/
  | invalid (length : Nat)
  /-- The bytes end inside a character. -/
  | incomplete
  deriving DecidableEq, Repr

/-- The first flaw of a byte sequence: the bytes before `index` spell characters. -/
structure Utf8Error where
  index : Nat
  flaw : Utf8Flaw
  deriving DecidableEq, Repr

/-- The flaw in words. -/
def Utf8Error.message (e : Utf8Error) : String :=
  match e.flaw with
  | .invalid length => s!"invalid utf-8 sequence of {length} bytes from index {e.index}"
  | .incomplete => s!"incomplete utf-8 byte sequence from index {e.index}"

/-- The bits of a lead byte that belong to its character, and the range each following byte must
lie in; `none` if no character begins with this byte. -/
def leadByte (b : UInt8) : Option (Nat × List (Nat × Nat)) :=
  let n := b.toNat
  let any := (0x80, 0xBF)
  if n < 0x80 then some (n, [])
  else if n < 0xC2 then none
  else if n < 0xE0 then some (n - 0xC0, [any])
  else if n = 0xE0 then some (n - 0xE0, [(0xA0, 0xBF), any])
  else if n = 0xED then some (n - 0xE0, [(0x80, 0x9F), any])
  else if n < 0xF0 then some (n - 0xE0, [any, any])
  else if n = 0xF0 then some (n - 0xF0, [(0x90, 0xBF), any, any])
  else if n < 0xF4 then some (n - 0xF0, [any, any, any])
  else if n = 0xF4 then some (n - 0xF0, [(0x80, 0x8F), any, any])
  else none

/-- Take one following byte for each range, adding its six bits to `code`. `length` counts the
bytes taken so far. -/
def continuation (code length : Nat) : List (Nat × Nat) → Bytes → Except Utf8Flaw (Nat × Nat)
  | [], _ => .ok (code, length)
  | _ :: _, [] => .error .incomplete
  | (low, high) :: ranges, b :: rest =>
    if low ≤ b.toNat ∧ b.toNat ≤ high then
      continuation (code * 64 + b.toNat % 64) (length + 1) ranges rest
    else .error (.invalid length)

/-- The character that a nonempty byte sequence begins with, and how many bytes spell it. -/
def firstChar (b : UInt8) (rest : Bytes) : Except Utf8Flaw (Nat × Nat) :=
  match leadByte b with
  | none => .error (.invalid 1)
  | some (code, ranges) => continuation code 1 ranges rest

/-- The first flaw of the bytes, the first of which stands at `index`. -/
def firstFlaw (bytes : Bytes) (index : Nat) : Option Utf8Error :=
  match bytes with
  | [] => none
  | b :: rest =>
    match firstChar b rest with
    | .error flaw => some ⟨index, flaw⟩
    | .ok (_, length) => firstFlaw (rest.drop (length - 1)) (index + length)
termination_by bytes.length
decreasing_by simp only [List.length_drop, List.length_cons]; omega

/-- The characters of the bytes, with a replacement character for each flaw. -/
def lossyChars (bytes : Bytes) : List Char :=
  match bytes with
  | [] => []
  | b :: rest =>
    match firstChar b rest with
    | .error .incomplete => ['\uFFFD']
    | .error (.invalid length) => '\uFFFD' :: lossyChars (rest.drop (length - 1))
    | .ok (code, length) => Char.ofNat code :: lossyChars (rest.drop (length - 1))
termination_by bytes.length
decreasing_by all_goals (simp only [List.length_drop, List.length_cons]; omega)

/-- The bytes of a code point. Half of a surrogate pair takes three of them like its neighbours,
though these spell no character. -/
def encodeCodePoint (code : Nat) : Bytes :=
  let following (power : Nat) : UInt8 := UInt8.ofNat (0x80 + code / 64 ^ power % 64)
  if code < 0x80 then [UInt8.ofNat code]
  else if code < 0x800 then [UInt8.ofNat (0xC0 + code / 64), following 0]
  else if code < 0x10000 then [UInt8.ofNat (0xE0 + code / 64 ^ 2), following 1, following 0]
  else [UInt8.ofNat (0xF0 + code / 64 ^ 3), following 2, following 1, following 0]

/-- The text of the bytes, with a replacement character for each flaw. -/
def lossy (bytes : Bytes) : String :=
  String.ofList (lossyChars bytes)

/-- The text that the bytes spell, or their first flaw. -/
def decodeUtf8 (bytes : Bytes) : Except Utf8Error String :=
  match String.fromUTF8? ⟨bytes.toArray⟩ with
  | some text => .ok text
  | none => .error ((firstFlaw bytes 0).getD ⟨0, .incomplete⟩)

end DocStore.Text
