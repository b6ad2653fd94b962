import NativeLowering.Json.Basic

/-!
# Writing JSON

`Json.write` spells a value on one line without spaces. Quotes, backslashes and control
characters are escaped, with one letter where there is one; everything else stands for itself.
-/

set_option autoImplicit false

namespace NativeLowering.Json

/-- A hexadecimal digit. -/
def hexDigit (n : Nat) : Char := Nat.digitChar n

/-- A character of a text, as it stands in a string literal. -/
def escapeChar (c : Char) : List Char :=
  match c with
  | '"' => ['\\', '"']
  | '\\' => ['\\', '\\']
  | '\x08' => ['\\', 'b']
  | '\x0c' => ['\\', 'f']
  | '\n' => ['\\', 'n']
  | '\r' => ['\\', 'r']
  | '\t' => ['\\', 't']
  | c =>
    if c.toNat < 0x20 then
      ['\\', 'u', '0', '0', hexDigit (c.toNat / 16), hexDigit (c.toNat % 16)]
    else [c]

/-- The string literal of a text. A string that denotes no text is written as half a pair. -/
def literal : Option String → List Char
  | some text => '"' :: text.toList.flatMap escapeChar ++ ['"']
  | none => ['"', '\\', 'u', 'd', '8', '0', '0', '"']

mutual

/-- The characters of a value. -/
def chars : Json → List Char
  | .null => "null".toList
  | .bool true => "true".toList
  | .bool false => "false".toList
  | .number spelling => spelling.toList
  | .string text => literal text
  | .array items => '[' :: itemChars items ++ [']']
  | .object members => '\x7b' :: memberChars members ++ ['\x7d']

/-- The characters of an array's items, with commas between them. -/
def itemChars : List Json → List Char
  | [] => []
  | [item] => chars item
  | item :: rest => chars item ++ ',' :: itemChars rest

/-- The characters of an object's members, with commas between them. -/
def memberChars : List (Option String × Json) → List Char
  | [] => []
  | [(key, value)] => literal key ++ ':' :: chars value
  | (key, value) :: rest => literal key ++ ':' :: chars value ++ ',' :: memberChars rest

end

/-- The text of a value. -/
def write (value : Json) : String := String.ofList (chars value)

end NativeLowering.Json
