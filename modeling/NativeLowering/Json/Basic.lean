/-!
# JSON values

Programs are exchanged as JSON. The value type keeps what a reader of programs has to see and
what ordinary dictionaries lose: the members of an object in the order written, a key as often
as it occurs, and a number by its spelling, so that `1` and `1.0` stay apart.

A string literal may escape one half of a surrogate pair alone. Such a literal is well formed but
denotes no text; it is the string `none`.
-/

set_option autoImplicit false

namespace NativeLowering

/-- A JSON value. -/
inductive Json where
  | null
  | bool (value : Bool)
  | number (spelling : String)
  /-- A string; `none` if the literal denotes no text. -/
  | string (text : Option String)
  | array (items : List Json)
  /-- An object; a key is a string literal too, so it may denote no text either. -/
  | object (members : List (Option String × Json))

namespace Json

/-- The string with the given text. -/
def ofString (text : String) : Json := .string (some text)

/-- A number without fraction or exponent. -/
def ofNat (n : Nat) : Json := .number n.repr

/-- `null` for nothing, else the value itself. -/
def ofOption : Option Json → Json
  | none => .null
  | some value => value

/-- The array of the encoded items. -/
def ofList {α : Type} (encode : α → Json) (items : List α) : Json := .array (items.map encode)

/-- The object with the given fields, in order. -/
def record (fields : List (String × Json)) : Json :=
  .object (fields.map fun field => (some field.1, field.2))

/-- An object with one field, naming the variant its payload belongs to. -/
def tagged (tag : String) (payload : Json) : Json := record [(tag, payload)]

/-- The text of a string that denotes one. -/
def text? : Json → Option String
  | .string text => text
  | _ => none

/-- The truth value of a boolean. -/
def bool? : Json → Option Bool
  | .bool value => some value
  | _ => none

/-- The number that a run of decimal digits stands for, most significant digit first. -/
def digitsValue (digits : List Char) : Nat :=
  digits.foldl (fun n c => 10 * n + (c.toNat - '0'.toNat)) 0

/-- One past the largest offset a number can stand for: offsets have 64 bits. -/
def offsetLimit : Nat := 18446744073709551616

/-- The offset a number stands for: written with digits only, and within 64 bits. -/
def offset? : Json → Option Nat
  | .number spelling =>
    let digits := spelling.toList
    if digits.all Char.isDigit && digitsValue digits < offsetLimit then some (digitsValue digits)
    else none
  | _ => none

end Json

end NativeLowering
