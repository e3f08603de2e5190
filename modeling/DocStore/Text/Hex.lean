/-!
# Hexadecimal numbers

Numbers in messages that are words of a file are written in hexadecimal with a fixed least width.
-/

namespace DocStore.Text

/-- `n` in lower-case hexadecimal, padded with zeros to at least `width` digits. -/
def hexDigits (width n : Nat) : String :=
  let digits := Nat.toDigits 16 n
  String.ofList (List.replicate (width - digits.length) '0' ++ digits)

/-- `n` as `0x` and at least `width` hexadecimal digits. -/
def hexWord (width n : Nat) : String :=
  "0x" ++ hexDigits width n

end DocStore.Text
