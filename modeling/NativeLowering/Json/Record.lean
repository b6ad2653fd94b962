import NativeLowering.Json.Basic

/-!
# Records and variants in JSON

A record is written as an object with one member per field, in any order and with members that
the record does not know in between, or as the array of its fields in declared order. What may be
left out differs: an object may leave out any field that has a default or can be absent, an array
only fields at its end that have a default. A field written twice makes the record unreadable.

`Json.openRecord` turns both forms into the list of the fields that are written, by name. Fields
are then taken out of that list one by one (`Fields.need`, `Fields.orElse`, `Fields.option`).
-/

set_option autoImplicit false

namespace NativeLowering.Json

/-- What a record does about a field that is not written. -/
inductive Presence where
  /-- The field has to be written. -/
  | required
  /-- The field can be absent, and an object may then leave it out. -/
  | nullable
  /-- The field has a default, and both forms may leave it out. -/
  | defaulted
  deriving DecidableEq

/-- A field that a record declares. -/
structure Field where
  key : String
  presence : Presence

/-- The fields of a record that are written, by name. -/
abbrev Fields := List (String × Json)

/-- The members of an object, if every key denotes a text. -/
def textMembers? : List (Option String × Json) → Option Fields
  | [] => some []
  | (some key, value) :: rest => (textMembers? rest).map ((key, value) :: ·)
  | (none, _) :: _ => none

/-- Whether no declared field is written twice. -/
def keysOnce (declared : List Field) (written : Fields) : Bool :=
  declared.all fun field => (written.filter fun member => member.1 == field.key).length ≤ 1

/-- The fields of a record written as an array: as many as there are items, and the others have
to have defaults. -/
def positional? : List Field → List Json → Option Fields
  | [], [] => some []
  | [], _ :: _ => none
  | field :: declared, [] =>
    if field.presence = .defaulted then positional? declared [] else none
  | field :: declared, item :: items =>
    (positional? declared items).map ((field.key, item) :: ·)

/-- The fields of a record that are written, in either form. -/
def openRecord (declared : List Field) : Json → Option Fields
  | .object members =>
    (textMembers? members).bind fun written =>
      if keysOnce declared written then some written else none
  | .array items => positional? declared items
  | _ => none

namespace Fields

variable {α : Type}

/-- A field that has to be written. -/
def need (fields : Fields) (key : String) (decode : Json → Option α) : Option α :=
  (fields.lookup key).bind decode

/-- A field that takes a default when it is not written. -/
def orElse (fields : Fields) (key : String) (default : α) (decode : Json → Option α) :
    Option α :=
  match fields.lookup key with
  | none => some default
  | some value => decode value

/-- A field that can be absent: not written, or written as `null`. -/
def option (fields : Fields) (key : String) (decode : Json → Option α) : Option (Option α) :=
  match fields.lookup key with
  | none | some .null => some none
  | some value => (decode value).map some

end Fields

/-- The name of a variant without payload: the bare name, or, one level deeper, the only key of
an object whose value is `null`. -/
def bareVariant? : Nat → Json → Option String
  | _, .string text => text
  | _ + 1, .object [(some tag, .null)] => some tag
  | _, _ => none

/-- The items of an array, each decoded one level deeper. -/
def list? {α : Type} (decode : Nat → Json → Option α) : Nat → Json → Option (List α)
  | n + 1, .array items => items.mapM (decode n)
  | _, _ => none

/-- The texts in an array. -/
def texts? : Nat → Json → Option (List String) := list? fun _ => text?

end NativeLowering.Json
