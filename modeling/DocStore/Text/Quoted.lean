import DocStore.Text.Hex
import DocStore.Text.Unprintable

/-!
# Quoted text

A text shown inside a message stands between double quotes. Quotes, backslashes and the common
controls are written with a backslash, any other character that does not show by its code point.
-/

namespace DocStore.Text

/-- How one character stands in a quoted text. -/
def quoteChar (c : Char) : String :=
  if c = '"' then "\\\""
  else if c = '\\' then "\\\\"
  else if c = '\n' then "\\n"
  else if c = '\r' then "\\r"
  else if c = '\t' then "\\t"
  else if c = '\x00' then "\\0"
  else if isPrintable c then c.toString
  else "\\u\x7b" ++ hexDigits 1 c.toNat ++ "\x7d"

/-- The text between double quotes. -/
def quote (text : String) : String :=
  text.toList.foldl (fun shown c => shown ++ quoteChar c) "\"" ++ "\""

end DocStore.Text
