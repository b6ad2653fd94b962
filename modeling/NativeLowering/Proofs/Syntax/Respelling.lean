import NativeLowering.Proofs.Syntax.Position

/-!
# Other spellings of a program

The same program can be written in many ways, since a record does not ask for its members in any
order, ignores those it does not know, has defaults for some, and can be written as an array.
`Change` is one change to how a record is written, and `Respelled` makes it anywhere in a value.
However often that is done, what is decoded stays the same; but a field that is written twice makes
a text unreadable (`decode_respelled`).

A change is looked at where a record is opened: each declared field has to give the value it gave
before (`Format.Reopens`). Only a default that is written out can need more levels than there are.
-/

set_option autoImplicit false

namespace NativeLowering

open Json (Field Fields openRecord membersOf)

namespace Format

/-! ## Defaults -/

/-- A JSON value that says what leaving the field out says. -/
def IsDefault (format : Format) (json : Json) : Prop :=
  ∃ n place value, format.default? = some value ∧ format.decode n place json = some value

theorem bareVariant?_of_some {n : Nat} (m : Nat) {json : Json} {word : String}
    (h : Json.bareVariant? n json = some word) :
    Json.bareVariant? m json = some word ∨ Json.bareVariant? m json = none ∧ m < json.nesting := by
  unfold Json.bareVariant? at h
  split at h
  case h_1 => exact .inl (by cases m <;> exact h)
  case h_2 =>
    cases m with
    | zero => exact .inr ⟨rfl, Nat.zero_lt_succ _⟩
    | succ m => exact .inl h
  case h_3 => cases h

/-- A default is read as the default wherever there are enough levels. -/
theorem decode_default {format : Format} {n : Nat} {place : Span} {json : Json}
    {value : format.Value} (m : Nat) (place' : Span) (hdefault : format.default? = some value)
    (hvalue : format.decode n place json = some value) :
    format.decode m place' json = some value ∨
      format.decode m place' json = none ∧ m < json.nesting := by
  -- Only these formats have a default. Where reading it takes a level, it fails if none is left.
  cases format
  case list item =>
    cases hdefault
    cases n with
    | zero => cases hvalue
    | succ n =>
      cases json
      case array items =>
        cases items with
        | nil =>
          cases m with
          | zero => exact .inr ⟨rfl, Nat.zero_lt_succ _⟩
          | succ m => exact .inl rfl
        | cons first rest =>
          change (first :: rest).mapM (item.decode n place) = some [] at hvalue
          rw [List.mapM_cons] at hvalue
          obtain ⟨_, -, hvalue⟩ := Option.bind_eq_some_iff.mp hvalue
          obtain ⟨_, -, hvalue⟩ := Option.bind_eq_some_iff.mp hvalue
          cases hvalue
      all_goals cases hvalue
  case optional inner =>
    cases hdefault
    cases json
    case null => exact .inl rfl
    all_goals
      obtain ⟨found, -, hfound⟩ := Option.map_eq_some_iff.mp hvalue
      cases hfound
  case flag => exact .inl hvalue
  case visibility =>
    obtain ⟨word, hword, hvalue⟩ := Option.bind_eq_some_iff.mp hvalue
    obtain hfound | ⟨hfound, hnesting⟩ := bareVariant?_of_some m hword
    · exact .inl (Option.bind_eq_some_iff.mpr ⟨word, hfound, hvalue⟩)
    · have hnone : Visibility.decode m json = none := by
        rw [Visibility.decode, hfound, Option.bind_none]
      exact .inr ⟨hnone, hnesting⟩
  case span =>
    cases n with
    | zero => cases hvalue
    | succ n =>
      cases m with
      | succ m => exact .inl hvalue
      | zero =>
        refine .inr ⟨rfl, ?_⟩
        cases json
        case array => exact Nat.zero_lt_succ _
        case object => exact Nat.zero_lt_succ _
        all_goals cases hvalue
  all_goals cases hdefault

namespace IsDefault

variable {format : Format} {n : Nat} {place : Span} {json : Json}

/-- Leaving the field out gives the same value, if what it holds can be decoded at all. -/
theorem default?_eq_some (h : format.IsDefault json) {value : format.Value}
    (hvalue : format.decode n place json = some value) : format.default? = some value := by
  obtain ⟨m, inner, default, hdefault, hjson⟩ := h
  obtain hfound | ⟨hfound, -⟩ := decode_default n place hdefault hjson
  · rw [hdefault, ← hfound, hvalue]
  · rw [hvalue] at hfound
    cases hfound

theorem decode_eq (h : format.IsDefault json) (hn : json.nesting ≤ n) :
    format.decode n place json = format.default? := by
  obtain ⟨m, inner, default, hdefault, hjson⟩ := h
  obtain hfound | ⟨-, hnesting⟩ := decode_default n place hdefault hjson
  · rw [hfound, hdefault]
  · exact absurd hn (by omega)

end IsDefault

/-! ## Changes to a record -/

/-- One record opened in place of another: each declared field gives the value it gave. -/
def Reopens (format : Format) (n : Nat) (json json' : Json) : Prop :=
  ∀ fields, openRecord format.declared json = some fields →
    ∃ fields', openRecord format.declared json' = some fields' ∧
      ∀ slot ∈ format.slots, ∀ place value, slotValue slot n place fields = some value →
        slotValue slot n place fields' = some value

variable {format : Format} {n : Nat} {place : Span} {json json' : Json}

theorem Reopens.decode_eq_some (h : format.Reopens n json json') (hrecord : format.slots ≠ [])
    {value : format.Value} (hvalue : format.decode (n + 1) place json = some value) :
    format.decode (n + 1) place json' = some value := by
  rw [decode_record hrecord] at hvalue ⊢
  obtain ⟨fields, hfields, hvalue⟩ := Option.bind_eq_some_iff.mp hvalue
  obtain ⟨fields', hfields', hslots⟩ := h fields hfields
  rw [hfields']
  exact assemble_mono hslots hvalue

theorem slotValue_congr {slot : Field × Format} {fields fields' : Fields}
    (h : fields'.lookup slot.1.key = fields.lookup slot.1.key) :
    slotValue slot n place fields' = slotValue slot n place fields := by
  rw [slotValue, h, slotValue]

theorem slotValue_absent {slot : Field × Format} {fields : Fields}
    (h : slot.1.key ∉ fields.map Prod.fst) (hpresence : slot.1.presence ≠ .required) :
    slotValue slot n place fields = slot.2.default? := by
  rw [slotValue, Json.lookup_of_absent h]
  exact if_neg hpresence

/-- Two fields of one record have different keys. -/
theorem key_ne {slot other : Field × Format} (hslot : slot ∈ format.slots)
    (hother : other ∈ format.slots) (h : slot ≠ other) : slot.1.key ≠ other.1.key := by
  have hsymm : Std.Symm fun (slot other : Field × Format) => slot.1.key ≠ other.1.key :=
    ⟨fun _ _ => Ne.symm⟩
  exact format.keys_distinct.forall hslot hother h

theorem reopens_permuted {members members' : List (Option String × Json)}
    (h : members.Perm members') : format.Reopens n (.object members) (.object members') := by
  intro fields hfields
  obtain ⟨rfl, honce⟩ := Json.openRecord_object.mp hfields
  obtain ⟨fields', rfl, hperm⟩ := Json.membersOf_perm h
  refine ⟨fields', Json.openRecord_object.mpr ⟨rfl, fun field hfield => ?_⟩, ?_⟩
  · rw [← (hperm.map Prod.fst).count_eq]
    exact honce field hfield
  · intro slot hslot place value hvalue
    rwa [slotValue_congr (Json.lookup_perm hperm (honce slot.1 (List.mem_map_of_mem hslot)))]

section Members

variable {before after : List (Option String × Json)} {slot : Field × Format}

theorem reopens_unknown {key : String} (h : ∀ slot ∈ format.slots, slot.1.key ≠ key) :
    format.Reopens n (.object (before ++ after))
      (.object (before ++ (some key, json) :: after)) := by
  intro fields hfields
  obtain ⟨front, back, rfl, rfl, rfl, honce⟩ := Json.openRecord_append.mp hfields
  have hunknown : ∀ field ∈ format.declared, field.key ≠ key := by
    intro field hfield
    obtain ⟨slot, hslot, rfl⟩ := List.mem_map.mp hfield
    exact h slot hslot
  refine ⟨front ++ (key, json) :: back, Json.openRecord_member.mpr ⟨front, back, rfl, rfl, rfl,
    Json.once_insert.mpr ⟨honce, fun field hfield hkey => absurd hkey (hunknown field hfield)⟩⟩, ?_⟩
  intro slot hslot place value hvalue
  rwa [slotValue_other (h slot hslot)]

theorem reopens_omitted (hslot : slot ∈ format.slots) (hpresence : slot.1.presence ≠ .required)
    (hdefault : slot.2.IsDefault json) :
    format.Reopens n (.object (before ++ (some slot.1.key, json) :: after))
      (.object (before ++ after)) := by
  intro fields hfields
  obtain ⟨front, back, rfl, rfl, rfl, honce⟩ := Json.openRecord_member.mp hfields
  obtain ⟨honce, habsent⟩ := Json.once_insert.mp honce
  have habsent := habsent slot.1 (List.mem_map_of_mem hslot) rfl
  rw [List.mem_append, not_or] at habsent
  refine ⟨front ++ back, Json.openRecord_append.mpr ⟨front, back, rfl, rfl, rfl, honce⟩, ?_⟩
  intro other hother place value hvalue
  by_cases hsame : other = slot
  · subst hsame
    rw [slotValue_self habsent.1] at hvalue
    rw [slotValue_absent (by simpa using habsent) hpresence]
    exact hdefault.default?_eq_some hvalue
  · rwa [slotValue_other (key_ne hother hslot hsame)] at hvalue

theorem reopens_supplied (hslot : slot ∈ format.slots) (hpresence : slot.1.presence ≠ .required)
    (hdefault : slot.2.IsDefault json) (hn : json.nesting ≤ n)
    (habsent : some slot.1.key ∉ (before ++ after).map Prod.fst) :
    format.Reopens n (.object (before ++ after))
      (.object (before ++ (some slot.1.key, json) :: after)) := by
  intro fields hfields
  obtain ⟨front, back, rfl, rfl, rfl, honce⟩ := Json.openRecord_append.mp hfields
  have habsent : slot.1.key ∉ front.map Prod.fst ++ back.map Prod.fst := by
    simpa [membersOf] using habsent
  have hfront : slot.1.key ∉ front.map Prod.fst := fun hm => habsent (List.mem_append_left _ hm)
  refine ⟨front ++ (slot.1.key, json) :: back, Json.openRecord_member.mpr ⟨front, back, rfl, rfl,
    rfl, Json.once_insert.mpr ⟨honce, fun field _ _ => habsent⟩⟩, ?_⟩
  intro other hother place value hvalue
  by_cases hsame : other = slot
  · subst hsame
    rw [slotValue_absent (by simpa using habsent) hpresence] at hvalue
    rwa [slotValue_self hfront, hdefault.decode_eq hn]
  · rwa [slotValue_other (key_ne hother hslot hsame)]

end Members

/-- In the list that an array is opened into, each key has the item that stands for it. -/
theorem lookup_zip {holds : Field × Format → Json → Prop} {slots : List (Field × Format)}
    {items : List Json} (h : List.Forall₂ holds slots items)
    (hkeys : slots.Pairwise fun slot other => slot.1.key ≠ other.1.key) :
    ∀ slot ∈ slots, ∃ item, holds slot item ∧
      ((slots.map fun slot => slot.1.key).zip items).lookup slot.1.key = some item := by
  induction h with
  | nil => simp
  | @cons first item rest items hfirst _ ih =>
    obtain ⟨hne, hrest⟩ := List.pairwise_cons.mp hkeys
    intro slot hslot
    obtain rfl | hslot := List.mem_cons.mp hslot
    · exact ⟨item, hfirst, List.lookup_cons_self⟩
    · obtain ⟨found, hfound, hlookup⟩ := ih hrest slot hslot
      refine ⟨found, hfound, ?_⟩
      have hkey : (slot.1.key == first.1.key) = false := by simpa using (hne slot hslot).symm
      rw [List.map_cons, List.zip_cons_cons, List.lookup_cons, hkey]
      exact hlookup

theorem reopens_positional {members : List (Option String × Json)} {items : List Json}
    (h : List.Forall₂ (fun slot item => (some slot.1.key, item) ∈ members) format.slots items) :
    format.Reopens n (.object members) (.array items) := by
  intro fields hfields
  obtain ⟨rfl, honce⟩ := Json.openRecord_object.mp hfields
  have hlength : items.length = format.declared.length := by
    rw [declared, List.length_map, h.length_eq]
  refine ⟨(format.slots.map fun slot => slot.1.key).zip items,
    Json.positional?_eq_some.mpr ⟨hlength.le, by simp [hlength], ?_⟩, ?_⟩
  · simp [declared, Function.comp_def]
  · intro slot hslot place value hvalue
    obtain ⟨item, hitem, hlookup⟩ := lookup_zip h format.keys_distinct slot hslot
    have hm : (slot.1.key, item) ∈ fields := by simpa [membersOf] using hitem
    have hwritten := (Json.lookup_eq_some_of_once (honce slot.1 (List.mem_map_of_mem hslot))).mpr hm
    rwa [slotValue_congr (hlookup.trans hwritten.symm)]

end Format

/-- One change to how a record with the given fields is written. -/
inductive Change (slots : List (Field × Format)) : Json → Json → Prop
  /-- The members of an object change places. -/
  | permuted {members members' : List (Option String × Json)} (h : members.Perm members') :
      Change slots (.object members) (.object members')
  /-- An object gets a member that the record does not know. -/
  | unknown {before after : List (Option String × Json)} {key : String} {json : Json}
      (h : ∀ slot ∈ slots, slot.1.key ≠ key) :
      Change slots (.object (before ++ after)) (.object (before ++ (some key, json) :: after))
  /-- An object leaves out a field that has its default, or nothing, for a value. -/
  | omitted {before after : List (Option String × Json)} {slot : Field × Format} {json : Json}
      (hslot : slot ∈ slots) (homissible : Format.Omissible slot)
      (hdefault : slot.2.IsDefault json) :
      Change slots (.object (before ++ (some slot.1.key, json) :: after))
        (.object (before ++ after))
  /-- An object gets such a field that it has left out. -/
  | supplied {before after : List (Option String × Json)} {slot : Field × Format} {json : Json}
      (hslot : slot ∈ slots) (homissible : Format.Omissible slot)
      (hdefault : slot.2.IsDefault json)
      (habsent : some slot.1.key ∉ (before ++ after).map Prod.fst) :
      Change slots (.object (before ++ after))
        (.object (before ++ (some slot.1.key, json) :: after))
  /-- An object with all fields becomes the array of what they hold, in declared order. -/
  | positional {members : List (Option String × Json)} {items : List Json}
      (h : List.Forall₂ (fun slot item => (some slot.1.key, item) ∈ members) slots items) :
      Change slots (.object members) (.array items)

namespace Change

variable {slots : List (Field × Format)} {json json' : Json}

theorem ne_null (h : Change slots json json') : json ≠ .null ∧ json' ≠ .null := by
  cases h <;> exact ⟨nofun, nofun⟩

/-- What is decoded from a record does not change. -/
theorem decode_eq_some {format : Format} (h : Change format.slots json json')
    (hrecord : format.IsRecord) {n : Nat} (hn : json'.nesting ≤ n) {place : Span}
    {value : format.Value} (hvalue : format.decode n place json = some value) :
    format.decode n place json' = some value := by
  cases n with
  | zero =>
    rw [Format.decode_record_zero hrecord.slots_ne_nil] at hvalue
    cases hvalue
  | succ n =>
    refine Format.Reopens.decode_eq_some ?_ hrecord.slots_ne_nil hvalue
    cases h with
    | permuted h => exact Format.reopens_permuted h
    | unknown h => exact Format.reopens_unknown h
    | omitted hslot homissible hdefault =>
      have hpresence := homissible.presence_ne_required hrecord hslot
      exact Format.reopens_omitted hslot hpresence hdefault
    | supplied hslot homissible hdefault habsent =>
      have hpresence := homissible.presence_ne_required hrecord hslot
      have hnesting := Json.nesting_lt_object.trans_le hn
      exact Format.reopens_supplied hslot hpresence hdefault (Nat.le_of_lt_succ hnesting) habsent
    | positional h => exact Format.reopens_positional h

end Change

/-! ## Changes anywhere in a text -/

/-- One record, somewhere in a spelled value, is written in another way, and the value nests no
deeper than a reader allows. -/
inductive Respelled (format : Format) : Json → Json → Prop
  | change {record : Format} {around : Json → Json} {json json' : Json}
      (position : Position format record around) (hrecord : record.IsRecord)
      (change : Change record.slots json json') (nests : (around json').nesting ≤ nestingLimit) :
      Respelled format (around json) (around json')

/-- Somewhere in a spelled value, a record is an object with a member of one of its fields twice. -/
inductive Repeating (format : Format) : Json → Prop
  | member {record : Format} {around : Json → Json} {slot : Field × Format}
      {members : List (Option String × Json)} (position : Position format record around)
      (hslot : slot ∈ record.slots)
      (twice : 2 ≤ (members.map Prod.fst).count (some slot.1.key)) :
      Repeating format (around (.object members))

/-- The value of a format that a JSON text spells. -/
def Format.parse? (format : Format) (place : Span) (text : String) : Option format.Value :=
  (Json.read text).bind (format.decode nestingLimit place)

theorem Format.parse?_program (place : Span) (text : String) :
    Format.program.parse? place text = Program.parse? text := rfl

theorem Respelled.decode_eq_some {format : Format} {json json' : Json}
    (h : Respelled format json json') {place : Span} {value : format.Value}
    (hvalue : format.decode nestingLimit place json = some value) :
    format.decode nestingLimit place json' = some value := by
  cases h with
  | change position hrecord change nests =>
    obtain ⟨hne, hne'⟩ := change.ne_null
    exact position.respell hne hne' (fun m place value hm => change.decode_eq_some hrecord hm)
      nests hvalue

theorem Repeating.decode_eq_none {format : Format} {json : Json} (h : Repeating format json)
    (n : Nat) (place : Span) : format.decode n place json = none := by
  cases h with
  | @member record around slot members position hslot twice =>
    have hrecord : record.slots ≠ [] := List.ne_nil_of_mem hslot
    have hne : Json.object members ≠ .null := nofun
    refine position.refuse hne (fun m place => ?_) n place
    cases m with
    | zero => exact Format.decode_record_zero hrecord place _
    | succ m =>
      have hclosed : openRecord record.declared (.object members) = none := by
        refine Option.eq_none_iff_forall_ne_some.mpr fun fields hfields => ?_
        obtain ⟨rfl, honce⟩ := Json.openRecord_object.mp hfields
        have hcount := honce slot.1 (List.mem_map_of_mem hslot)
        rw [Json.count_membersOf] at twice
        omega
      rw [Format.decode_record hrecord, hclosed, Option.bind_none]

/-- **Decoding does not depend on how records are written.** Whatever sort of value a text spells, a
text that differs in how its records are written, any number of times and at any depth, spells the
same. A text that repeats a field of a record spells nothing. -/
theorem decode_respelled (format : Format) (place : Span) :
    (∀ text text' json json' value, Json.read text = some json → Json.read text' = some json' →
      Relation.ReflTransGen (Respelled format) json json' →
      format.parse? place text = some value → format.parse? place text' = some value) ∧
    (∀ text json, Json.read text = some json → Repeating format json →
      format.parse? place text = none) := by
  constructor
  · intro text text' json json' value htext htext' hjson hvalue
    rw [Format.parse?, htext, Option.bind_some] at hvalue
    rw [Format.parse?, htext', Option.bind_some]
    clear htext htext'
    induction hjson with
    | refl => exact hvalue
    | tail _ hstep ih => exact hstep.decode_eq_some ih
  · intro text json htext hjson
    rw [Format.parse?, htext, Option.bind_some]
    exact hjson.decode_eq_none nestingLimit place

/-- The type alias `T`, first with all left out that can be, then as an array, with a span, and
behind a member that a program does not know. A program with its declarations twice is none. -/
theorem decode_respelled_typeAlias :
    let decls (decl : Json) : String × Json := ("declarations", .array [decl])
    let span : Json := .record [("start", .ofNat 0), ("end", .ofNat 0)]
    let short : Json := .record
      [decls (.record [("node", .tagged "TypeAlias" (.record [("name", .ofString "T")]))])]
    let long : Json := .record [("version", .ofNat 1),
      decls (.record [("span", span), ("node", .tagged "TypeAlias" (.array [.ofString "T"]))])]
    let twice : Json := .record [("declarations", .array []), ("declarations", .array [])]
    Program.parse? (Json.write short) = some ⟨[.typeAlias {} "T"]⟩ ∧
      Relation.ReflTransGen (Respelled .program) short long ∧
      Program.parse? (Json.write long) = some ⟨[.typeAlias {} "T"]⟩ ∧
      Program.parse? (Json.write twice) = none := by
  intro decls span short long twice
  have hdecl : Position .program (.spanned .declaration) fun json => .record [decls json] :=
    @Position.member _ _ (⟨"declarations", .required⟩, .list (.spanned .declaration)) _ [] []
      (.head _) (@Position.item _ _ _ [] [] .here)
  have hnode : Position .program .typeAlias fun json =>
      .record [decls (.record [("node", .tagged "TypeAlias" json)])] :=
    @Position.member _ _ (⟨"declarations", .required⟩, .list (.spanned .declaration)) _ [] []
      (.head _) (@Position.item _ _ _ [] []
        (@Position.member _ _ (⟨"node", .required⟩, .declaration) _ [] [] (.head _)
          (.payload (by simp [Format.variants]) .here)))
  have hpositional : Change (Format.slots .typeAlias) (.record [("name", .ofString "T")])
      (.array [.ofString "T"]) := .positional (.cons (.head _) .nil)
  have hdefault : Format.span.IsDefault span := ⟨1, {}, {}, rfl, rfl⟩
  have hsupplied : Change (Format.slots (.spanned .declaration))
      (.record [("node", .tagged "TypeAlias" (.array [.ofString "T"]))])
      (.record [("span", span), ("node", .tagged "TypeAlias" (.array [.ofString "T"]))]) :=
    @Change.supplied _ [] [_] (⟨"span", .defaulted⟩, .span) _ (.tail _ (.head _)) (.inl rfl)
      hdefault (by decide)
  have hunknown (declaration : Json) : Change (Format.slots .program) (.record [decls declaration])
      (.record [("version", .ofNat 1), decls declaration]) :=
    @Change.unknown _ [] [_] _ _ (by simp [Format.slots, Program.fields])
  have hsteps : Relation.ReflTransGen (Respelled .program) short long := by
    have first := Respelled.change hnode (List.cons_ne_nil _ _) hpositional (by decide)
    have second := Respelled.change hdecl rfl hsupplied (by decide)
    exact ((Relation.ReflTransGen.single first).tail second).tail
      (.change .here (List.cons_ne_nil _ _) (hunknown _) (by decide))
  have hoffset (n : Nat) : (Json.ofNat n).Plain := ⟨n, rfl⟩
  have hshort : Json.read (Json.write short) = some short := Json.read_write <| by
    simp [short, decls, Json.plain_record, Json.tagged, Json.ofString, Json.Plain, Json.PlainItems]
  have hlong : Json.read (Json.write long) = some long := Json.read_write <| by
    simp [long, decls, span, hoffset, Json.plain_record, Json.tagged, Json.ofString, Json.Plain,
      Json.PlainItems]
  have htwice : Json.read (Json.write twice) = some twice := Json.read_write <| by
    simp [twice, Json.plain_record, Json.Plain, Json.PlainItems]
  have hparse : Program.parse? (Json.write short) = some ⟨[.typeAlias {} "T"]⟩ := by
    rw [Program.parse?, hshort]
    rfl
  obtain ⟨hsame, hnone⟩ := decode_respelled .program {}
  have hkept := hsame _ _ _ _ _ hshort hlong hsteps ((Format.parse?_program {} _).trans hparse)
  refine ⟨hparse, hsteps, (Format.parse?_program {} _).symm.trans hkept, hnone _ _ htwice ?_⟩
  exact @Repeating.member _ _ _ (⟨"declarations", .required⟩, .list (.spanned .declaration)) _ .here
    (.head _) (by decide)

end NativeLowering
