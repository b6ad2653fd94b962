import NativeLowering.Json.Record
import NativeLowering.Proofs.Json.RoundTrip

/-!
# Decoders that undo an encoding

`Faithful decode json value` is what all encodings have in common: the decoder finds the value in
the JSON value at every allowance that covers the nesting, and the JSON value can be written down and
read back. It is put together along the formats: from fields for a record, from the payload for a
variant, from the items for a list.
-/

set_option autoImplicit false

namespace NativeLowering

/-! ## Nesting -/

namespace Json

mutual

/-- How many arrays and objects are open at once, at most. -/
def nesting : Json → Nat
  | .null | .bool _ | .number _ | .string _ => 0
  | .array items => nestingItems items + 1
  | .object members => nestingMembers members + 1

def nestingItems : List Json → Nat
  | [] => 0
  | item :: rest => max item.nesting (nestingItems rest)

def nestingMembers : List (Option String × Json) → Nat
  | [] => 0
  | (_, value) :: rest => max value.nesting (nestingMembers rest)

end

theorem nesting_record {fields : List (String × Json)} {n : Nat} :
    (record fields).nesting ≤ n ↔ ∃ m, n = m + 1 ∧ ∀ field ∈ fields, field.2.nesting ≤ m := by
  have hmembers (m : Nat) : nestingMembers (fields.map fun field => (some field.1, field.2)) ≤ m ↔
      ∀ field ∈ fields, field.2.nesting ≤ m := by
    induction fields with
    | nil => simp [nestingMembers]
    | cons field rest ih => simp [nestingMembers, ih]
  rw [record, nesting]
  constructor
  · intro h
    exact ⟨n - 1, by omega, (hmembers _).mp (by omega)⟩
  · rintro ⟨m, rfl, h⟩
    exact Nat.succ_le_succ ((hmembers m).mpr h)

theorem plain_record {fields : List (String × Json)} :
    (record fields).Plain ↔ ∀ field ∈ fields, field.2.Plain := by
  change PlainMembers (fields.map fun field => (some field.1, field.2)) ↔ _
  induction fields with
  | nil => simp [PlainMembers]
  | cons field rest ih => simp [PlainMembers, ih]

theorem openRecord_record {declared : List Field} {fields : Fields}
    (hkeys : keysOnce declared fields = true) : openRecord declared (record fields) = some fields := by
  have hmembers : textMembers? (fields.map fun field => (some field.1, field.2)) = some fields := by
    clear hkeys
    induction fields with
    | nil => rfl
    | cons field rest ih => simp [textMembers?, ih]
  simp [openRecord, record, hmembers, hkeys]

end Json

open Json (Fields)

/-! ## Faithful encodings -/

section Formats

variable {α β : Type}

/-- The value of a field that can be absent: `null` stands for none. -/
def optional? (decode : Nat → Json → Option α) : Nat → Json → Option (Option α)
  | _, .null => some none
  | n, json => (decode n json).map some

/-- The decoder finds the value in the JSON value, which can be written down and read back. -/
structure Faithful (decode : Nat → Json → Option α) (json : Json) (value : α) : Prop where
  plain : json.Plain
  decodes : ∀ n, json.nesting ≤ n → decode n json = some value

namespace Faithful

/-- It is found in the text the JSON value is written as. -/
theorem read_write {decode : Nat → Json → Option α} {json : Json} {value : α} {n : Nat}
    (h : Faithful decode json value) (hn : json.nesting ≤ n) :
    (Json.read (Json.write json)).bind (decode n) = some value := by
  rw [Json.read_write h.plain]
  exact h.decodes n hn

theorem map {decode : Nat → Json → Option α} {json : Json} {value : α} (change : α → β)
    (h : Faithful decode json value) :
    Faithful (fun n json => (decode n json).map change) json (change value) := by
  refine ⟨h.plain, fun n hn => ?_⟩
  rw [h.decodes n hn]
  rfl

theorem text (value : String) : Faithful (fun _ => Json.text?) (.ofString value) value :=
  ⟨rfl, fun _ _ => rfl⟩

theorem bool (value : Bool) : Faithful (fun _ => Json.bool?) (.bool value) value :=
  ⟨trivial, fun _ _ => rfl⟩

theorem offset {n : Nat} (h : n < Json.offsetLimit) :
    Faithful (fun _ => Json.offset?) (.ofNat n) n := by
  refine ⟨⟨n, rfl⟩, fun _ _ => ?_⟩
  have hdigits : (Nat.toDigits 10 n).all Char.isDigit = true :=
    List.all_eq_true.mpr fun c hc => Nat.isDigit_of_mem_toDigits (by decide) (by decide) hc
  have hvalue : Json.digitsValue (Nat.toDigits 10 n) = n :=
    Nat.ofDigitChars_toDigits (by decide) (by decide)
  simp only [Json.ofNat, Json.offset?, Nat.toList_repr, hdigits, hvalue, h, decide_true,
    Bool.and_self, if_true]

theorem bareVariant {ofString? : String → Option α} {word : String} {value : α}
    (h : ofString? word = some value) :
    Faithful (fun n json => (Json.bareVariant? n json).bind ofString?) (.ofString word) value :=
  ⟨rfl, fun n _ => by cases n <;> exact h⟩

/-! Lists -/

theorem nil {decode : Nat → Json → Option (List α)}
    (hdecode : ∀ n, decode (n + 1) (.array []) = some []) : Faithful decode (.array []) [] := by
  refine ⟨trivial, fun n hn => ?_⟩
  cases n with
  | zero => cases hn
  | succ n => exact hdecode n

theorem cons {decode : Nat → Json → Option α} {decodeList : Nat → Json → Option (List α)}
    {item : Json} {items : List Json} {value : α} {values : List α}
    (hdecode : ∀ n items, decodeList (n + 1) (.array items) = items.mapM (decode n))
    (h : Faithful decode item value) (hrest : Faithful decodeList (.array items) values) :
    Faithful decodeList (.array (item :: items)) (value :: values) := by
  refine ⟨⟨h.plain, hrest.plain⟩, fun n hn => ?_⟩
  cases n with
  | zero => cases hn
  | succ n =>
    have hmax : max item.nesting (Json.nestingItems items) ≤ n := Nat.le_of_succ_le_succ hn
    have hvalues : items.mapM (decode n) = some values := by
      rw [← hdecode]
      exact hrest.decodes (n + 1) (Nat.succ_le_succ (by omega))
    rw [hdecode, List.mapM_cons, h.decodes n (by omega), hvalues]
    rfl

theorem list {decode : Nat → Json → Option α} {encode : α → Json} {values : List α}
    (h : ∀ value ∈ values, Faithful decode (encode value) value) :
    Faithful (Json.list? decode) (.ofList encode values) values := by
  induction values with
  | nil => exact nil fun _ => rfl
  | cons value rest ih =>
    exact cons (fun _ _ => rfl) (h value (by simp)) (ih fun other hm => h other (by simp [hm]))

/-! What can be absent: no encoding of a value is `null` -/

theorem absent {decode : Nat → Json → Option α} : Faithful (optional? decode) .null none :=
  ⟨trivial, fun _ _ => rfl⟩

theorem present {decode : Nat → Json → Option α} {json : Json} {value : α}
    (h : Faithful decode json value) (hjson : json ≠ .null) :
    Faithful (optional? decode) json (some value) := by
  refine ⟨h.plain, fun n hn => ?_⟩
  have hvalue : (decode n json).map some = some (some value) := by
    rw [h.decodes n hn]
    rfl
  cases json with
  | null => exact absurd rfl hjson
  | bool | number | string | array | object => exact hvalue

/-! Records and variants -/

theorem record {decode : Nat → Json → Option α} {fields : List (String × Json)} {value : α}
    (hplain : ∀ field ∈ fields, field.2.Plain)
    (hdecode : ∀ n, (∀ field ∈ fields, field.2.nesting ≤ n) →
      decode (n + 1) (.record fields) = some value) :
    Faithful decode (.record fields) value := by
  refine ⟨Json.plain_record.mpr hplain, fun n hn => ?_⟩
  obtain ⟨m, rfl, hfields⟩ := Json.nesting_record.mp hn
  exact hdecode m hfields

theorem tagged {decode decodePayload : Nat → Json → Option α} {tag : String} {payload : Json}
    {value : α} (hdecode : ∀ n, decode (n + 1) (.tagged tag payload) = decodePayload n payload)
    (h : Faithful decodePayload payload value) : Faithful decode (.tagged tag payload) value := by
  refine record (by simpa using h.plain) fun n hn => ?_
  exact (hdecode n).trans (h.decodes n (hn (tag, payload) (by simp)))

/-! Fields -/

section Fields

variable {decode : Nat → Json → Option α} {json : Json} {value : α} {fields : Fields}
  {key : String} {n : Nat}

theorem need (h : Faithful decode json value) (hlookup : fields.lookup key = some json)
    (hn : json.nesting ≤ n) : fields.need key (decode n) = some value := by
  rw [Fields.need, hlookup]
  exact h.decodes n hn

theorem orElse (h : Faithful decode json value) {default : α}
    (hlookup : fields.lookup key = some json) (hn : json.nesting ≤ n) :
    fields.orElse key default (decode n) = some value := by
  rw [Fields.orElse, hlookup]
  exact h.decodes n hn

theorem absentOr {part : Option α} (h : Faithful (optional? decode) json part)
    (hlookup : fields.lookup key = some json) (hn : json.nesting ≤ n) :
    fields.option key (decode n) = some part := by
  have hpart := h.decodes n hn
  rw [Fields.option, hlookup]
  cases json <;> exact hpart

end Fields

end Faithful

/-- One step of a decoder that has found what it was looking for so far. -/
theorem bind_found {first : Option α} {next : α → Option β} {value : α} {result : β}
    (hfirst : first = some value) (hnext : next value = some result) :
    (first >>= next) = some result := by
  rw [hfirst]
  exact hnext

end Formats

end NativeLowering
