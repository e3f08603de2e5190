import DocStore.Json.Value
import DocStore.Text.Hex

/-!
# Writing JSON texts

`Json.render` writes a value without any blanks. Only quotes, backslashes and control characters
are escaped.
-/

namespace DocStore.Json

/-! ### Numbers -/

/-- The text of a number. -/
def Number.render (n : Number) : String :=
  let sign := if n.negative then "-" else ""
  let fraction := match n.fraction with
    | none => ""
    | some digits => String.ofList ('.' :: digits)
  let exponent := match n.exponent with
    | none => ""
    | some power => "e" ++ toString power
  sign ++ toString n.whole ++ fraction ++ exponent

/-! ### Texts -/

/-- How one character stands in a text. -/
def renderChar (c : Char) : String :=
  if c = '"' then "\\\""
  else if c = '\\' then "\\\\"
  else if c = '\x08' then "\\b"
  else if c = '\t' then "\\t"
  else if c = '\n' then "\\n"
  else if c = '\x0c' then "\\f"
  else if c = '\r' then "\\r"
  else if c.toNat < 32 then "\\u" ++ Text.hexDigits 4 c.toNat
  else c.toString

/-- The text between quotes. -/
def renderText (text : String) : String :=
  text.toList.foldl (fun shown c => shown ++ renderChar c) "\"" ++ "\""

/-! ### Values -/

mutual

/-- The text of a value. -/
def render : Json → String
  | null => "null"
  | bool value => if value then "true" else "false"
  | number value => value.render
  | string value => renderText value
  | array items => "[" ++ ",".intercalate (renderItems items) ++ "]"
  | object members => "\x7b" ++ ",".intercalate (renderMembers members) ++ "\x7d"

/-- The texts of the items of an array. -/
def renderItems : List Json → List String
  | [] => []
  | item :: items => render item :: renderItems items

/-- The texts of the members of an object. -/
def renderMembers : List (String × Json) → List String
  | [] => []
  | (name, value) :: members => (renderText name ++ ":" ++ render value) :: renderMembers members

end

end DocStore.Json
