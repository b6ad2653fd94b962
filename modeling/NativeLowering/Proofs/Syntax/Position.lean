import NativeLowering.Proofs.Syntax.Format

/-!
# Positions in a program

`Position format part around` says that `around` is what stands around a place in a value of one
format, and that the place is for a value of the format `part`. Of what stands there the rest only
makes use of the value that is decoded (`Position.around`). So a part can be given another spelling
without looking at what it is a part of (`Position.respell`), and a part that cannot be decoded makes
the whole unreadable (`Position.refuse`).
-/

set_option autoImplicit false

namespace NativeLowering

open Json (Field Fields openRecord)

/-! ## Nesting -/

namespace Json

theorem nesting_le_nestingMembers {members : List (Option String × Json)}
    {member : Option String × Json} (h : member ∈ members) :
    member.2.nesting ≤ nestingMembers members := by
  induction members with
  | nil => cases h
  | cons first rest ih =>
    rw [nestingMembers]
    obtain rfl | h := List.mem_cons.mp h
    · exact Nat.le_max_left ..
    · exact (ih h).trans (Nat.le_max_right ..)

theorem nesting_le_nestingItems {items : List Json} {item : Json} (h : item ∈ items) :
    item.nesting ≤ nestingItems items := by
  induction items with
  | nil => cases h
  | cons first rest ih =>
    rw [nestingItems]
    obtain rfl | h := List.mem_cons.mp h
    · exact Nat.le_max_left ..
    · exact (ih h).trans (Nat.le_max_right ..)

/-- A member of an object leaves at least one level to the object. -/
theorem nesting_lt_object {before after : List (Option String × Json)} {key : Option String}
    {json : Json} : json.nesting < (Json.object (before ++ (key, json) :: after)).nesting := by
  rw [nesting]
  have hm : (key, json) ∈ before ++ (key, json) :: after := by simp
  exact Nat.lt_succ_of_le (nesting_le_nestingMembers hm)

theorem nesting_lt_array {before after : List Json} {json : Json} :
    json.nesting < (Json.array (before ++ json :: after)).nesting := by
  rw [nesting]
  exact Nat.lt_succ_of_le (nesting_le_nestingItems (by simp))

end Json

namespace Format

/-! ## What a record makes of its fields -/

section Records

variable {α : Type} {n : Nat} {place : Span} {fields fields' front back : Fields} {format : Format}
  {slots : List (Field × Format)} {slot : Field × Format} {next : Values slots → Option α}

theorem readAll_mono (h : ∀ slot ∈ slots, ∀ value, slotValue slot n place fields = some value →
      slotValue slot n place fields' = some value)
    {result : α} (hread : readAll n place fields slots next = some result) :
    readAll n place fields' slots next = some result := by
  induction slots with
  | nil => exact hread
  | cons slot rest ih =>
    obtain ⟨value, hvalue, hrest⟩ := Option.bind_eq_some_iff.mp hread
    rw [readAll, h slot (by simp) value hvalue, Option.bind_some]
    exact ih (fun other hm => h other (by simp [hm])) hrest

theorem readAll_congr
    (h : ∀ slot ∈ slots, slotValue slot n place fields = slotValue slot n place fields') :
    readAll n place fields slots next = readAll n place fields' slots next := by
  ext result
  constructor
  · exact readAll_mono fun slot hm value hvalue => by rwa [← h slot hm]
  · exact readAll_mono fun slot hm value hvalue => by rwa [h slot hm]

/-- The other fields do not look at what one of them holds. -/
theorem slotValue_other {key : String} (h : slot.1.key ≠ key) (json : Json) :
    slotValue slot n place (front ++ (key, json) :: back)
      = slotValue slot n place (front ++ back) := by
  rw [slotValue, Json.lookup_insert_of_ne h, slotValue]

theorem slotValue_self (h : slot.1.key ∉ front.map Prod.fst) (json : Json) :
    slotValue slot n place (front ++ (slot.1.key, json) :: back)
      = slot.2.decode n place json := by
  rw [slotValue, Json.lookup_insert_self h]
  rfl

/-- All that happens with what a field holds is that it is decoded. -/
theorem readAll_hole (next : Values slots → Option α) (hslot : slot ∈ slots)
    (hkeys : slots.Pairwise fun slot other => slot.1.key ≠ other.1.key)
    (hfront : slot.1.key ∉ front.map Prod.fst) :
    ∃ rest : slot.2.Value → Option α, ∀ json,
      readAll n place (front ++ (slot.1.key, json) :: back) slots next
        = (slot.2.decode n place json).bind rest := by
  induction slots with
  | nil => cases hslot
  | cons first others ih =>
    obtain ⟨hfirst, hothers⟩ := List.pairwise_cons.mp hkeys
    obtain rfl | hslot := List.mem_cons.mp hslot
    · refine ⟨fun value => readAll n place (front ++ back) others fun values =>
        next (value, values), fun json => ?_⟩
      rw [readAll, slotValue_self hfront]
      refine congrArg (Option.bind _) (funext fun value => readAll_congr fun other hm => ?_)
      exact slotValue_other (hfirst other hm).symm json
    · cases hvalue : slotValue first n place (front ++ back) with
      | none =>
        refine ⟨fun _ => none, fun json => ?_⟩
        rw [readAll, slotValue_other (hfirst slot hslot), hvalue, Option.bind_none,
          Option.bind_fun_none]
      | some value =>
        obtain ⟨rest, hrest⟩ := ih (fun values => next (value, values)) hslot hothers
        refine ⟨rest, fun json => ?_⟩
        rw [readAll, slotValue_other (hfirst slot hslot), hvalue]
        exact hrest json

theorem assemble_eq_readAll (h : ∀ node, format ≠ .spanned node) :
    assemble n place fields format = readAll n place fields format.slots (format.make place) := by
  cases format <;> first | rfl | exact absurd rfl (h _)

/-- A record can be put together from other fields as well, as long as they have the same values. -/
theorem assemble_mono {result : format.Value}
    (h : ∀ slot ∈ format.slots, ∀ place value, slotValue slot n place fields = some value →
      slotValue slot n place fields' = some value)
    (hvalue : assemble n place fields format = some result) :
    assemble n place fields' format = some result := by
  by_cases hnode : ∃ node, format = .spanned node
  · obtain ⟨node, rfl⟩ := hnode
    obtain ⟨span, hspan, hvalue⟩ := Option.bind_eq_some_iff.mp hvalue
    exact Option.bind_eq_some_iff.mpr
      ⟨span, h _ (.tail _ (.head _)) _ _ hspan, h _ (.head _) _ _ hvalue⟩
  · have hrecord : ∀ node, format ≠ .spanned node := fun node heq => hnode ⟨node, heq⟩
    rw [assemble_eq_readAll hrecord] at hvalue ⊢
    exact readAll_mono (fun slot hslot => h slot hslot place) hvalue

/-- The field is decoded at the place of the record, but for a node, whose place is another of its
fields. -/
theorem assemble_hole (hslot : slot ∈ format.slots) (hfront : slot.1.key ∉ front.map Prod.fst)
    (n : Nat) (place : Span) (back : Fields) :
    ∃ (inner : Span) (rest : slot.2.Value → Option format.Value), ∀ json,
      assemble n place (front ++ (slot.1.key, json) :: back) format
        = (slot.2.decode n inner json).bind rest := by
  by_cases hnode : ∃ node, format = .spanned node
  · obtain ⟨node, rfl⟩ := hnode
    have hkeys := List.pairwise_pair.mp (keys_distinct (.spanned node))
    obtain rfl | rfl :
        slot = (⟨"node", .required⟩, node) ∨ slot = (⟨"span", .defaulted⟩, .span) := by
      simpa [slots, spannedFields] using hslot
    · cases hspan : slotValue (⟨"span", .defaulted⟩, .span) n place (front ++ back) with
      | none =>
        refine ⟨place, fun _ => none, fun json => ?_⟩
        rw [assemble, slotValue_other hkeys.symm, hspan]
        exact (Option.bind_fun_none _).symm
      | some span =>
        refine ⟨span, some, fun json => ?_⟩
        rw [assemble, slotValue_other hkeys.symm, hspan]
        exact (slotValue_self hfront json).trans (Option.bind_fun_some _).symm
    · refine ⟨place, fun span => slotValue (⟨"node", .required⟩, node) n span (front ++ back),
        fun json => ?_⟩
      rw [assemble, slotValue_self hfront]
      exact congrArg (Option.bind _) (funext fun span => slotValue_other hkeys json)
  · have hrecord : ∀ node, format ≠ .spanned node := fun node heq => hnode ⟨node, heq⟩
    obtain ⟨rest, hrest⟩ := readAll_hole (format.make place) hslot format.keys_distinct hfront
    refine ⟨place, rest, fun json => ?_⟩
    rw [assemble_eq_readAll hrecord]
    exact hrest json

end Records

end Format

/-! ## Around one part -/

/-- What stands around a part only decides how the part is decoded and what becomes of its value. -/
def Around (format part : Format) (n : Nat) (place : Span) (around : Json → Json) : Prop :=
  ∃ (m : Nat) (inner : Span) (rest : part.Value → Option format.Value), ∀ json, json ≠ .null →
    around json ≠ .null ∧ ((around json).nesting ≤ n → json.nesting ≤ m) ∧
      format.decode n place (around json) = (part.decode m inner json).bind rest

namespace Around

variable {format middle part : Format} {n : Nat} {place : Span} {around : Json → Json}

theorem refl : Around format format n place id :=
  ⟨n, place, some, fun _ h => ⟨h, id, (Option.bind_fun_some _).symm⟩⟩

theorem trans {outer : Json → Json} (h : Around format middle n place outer)
    (h' : ∀ m inner, Around middle part m inner around) :
    Around format part n place fun json => outer (around json) := by
  obtain ⟨m, inner, rest, hrest⟩ := h
  obtain ⟨m', inner', rest', hrest'⟩ := h' m inner
  refine ⟨m', inner', fun value => (rest' value).bind rest, fun json hjson => ?_⟩
  obtain ⟨hne', hnesting', hdecode'⟩ := hrest' json hjson
  obtain ⟨hne, hnesting, hdecode⟩ := hrest (around json) hne'
  refine ⟨hne, fun hn => hnesting' (hnesting hn), ?_⟩
  rw [hdecode, hdecode', Option.bind_assoc]

/-- Nothing is made of the part where the whole cannot be decoded anyway. -/
theorem of_none (hne : ∀ json, around json ≠ .null)
    (hnesting : ∀ json, json.nesting ≤ (around json).nesting)
    (h : ∀ json, format.decode n place (around json) = none) :
    Around format part n place around := by
  refine ⟨n, place, fun _ => none, fun json _ => ⟨hne json, (hnesting json).trans, ?_⟩⟩
  rw [h, Option.bind_fun_none]

/-- A field of a record that is written. -/
theorem of_field {slot : Field × Format} (hslot : slot ∈ format.slots)
    (hne : ∀ json, around json ≠ .null) (hnesting : ∀ json, json.nesting < (around json).nesting)
    (hopen : (∀ json, openRecord format.declared (around json) = none) ∨
      ∃ front back, slot.1.key ∉ front.map Prod.fst ∧ ∀ json,
        openRecord format.declared (around json) = some (front ++ (slot.1.key, json) :: back)) :
    Around format slot.2 n place around := by
  have hrecord : format.slots ≠ [] := List.ne_nil_of_mem hslot
  have hle : ∀ json, json.nesting ≤ (around json).nesting := fun json => (hnesting json).le
  cases n with
  | zero => exact of_none hne hle fun json => Format.decode_record_zero hrecord place _
  | succ n =>
    obtain hclosed | ⟨front, back, hfront, hopen⟩ := hopen
    · refine of_none hne hle fun json => ?_
      rw [Format.decode_record hrecord, hclosed, Option.bind_none]
    · obtain ⟨inner, rest, hrest⟩ := Format.assemble_hole hslot hfront n place back
      refine ⟨n, inner, rest, fun json _ => ⟨hne json, fun hn => ?_, ?_⟩⟩
      · exact Nat.le_of_lt_succ ((hnesting json).trans_le hn)
      · rw [Format.decode_record hrecord, hopen, Option.bind_some]
        exact hrest json

theorem member {slot : Field × Format} {before after : List (Option String × Json)}
    (hslot : slot ∈ format.slots) :
    Around format slot.2 n place fun json =>
      .object (before ++ (some slot.1.key, json) :: after) := by
  refine of_field hslot (fun json => nofun) (fun json => Json.nesting_lt_object) ?_
  -- Whether the object is a record shows in its keys.
  by_cases hopen : ∃ front back, before = Json.membersOf front ∧ after = Json.membersOf back ∧
    ∀ field ∈ format.declared,
      (front.map Prod.fst ++ slot.1.key :: back.map Prod.fst).count field.key ≤ 1
  · obtain ⟨front, back, hbefore, hafter, honce⟩ := hopen
    refine .inr ⟨front, back, fun hm => ?_, fun json => ?_⟩
    · have habsent := (Json.once_insert.mp honce).2 slot.1 (List.mem_map_of_mem hslot) rfl
      exact habsent (List.mem_append_left _ hm)
    · exact Json.openRecord_member.mpr ⟨front, back, hbefore, hafter, rfl, honce⟩
  · refine .inl fun json => Option.eq_none_iff_forall_ne_some.mpr fun fields hfields => hopen ?_
    obtain ⟨front, back, hbefore, hafter, -, honce⟩ := Json.openRecord_member.mp hfields
    exact ⟨front, back, hbefore, hafter, honce⟩

theorem element {slot : Field × Format} {before after : List Json}
    (hslot : format.slots[before.length]? = some slot) :
    Around format slot.2 n place fun json => .array (before ++ json :: after) := by
  refine of_field (List.mem_of_getElem? hslot) (fun json => nofun)
    (fun json => Json.nesting_lt_array) ?_
  obtain ⟨front, back, hslots, hlength⟩ : ∃ front back, format.slots = front ++ slot :: back ∧
      front.length = before.length := by
    obtain ⟨hlt, rfl⟩ := List.getElem?_eq_some_iff.mp hslot
    refine ⟨format.slots.take before.length, format.slots.drop (before.length + 1), ?_, ?_⟩
    · rw [← List.drop_eq_getElem_cons, List.take_append_drop]
    · exact List.length_take_of_le hlt.le
  have hkeys : format.declared.map Field.key =
      (front.map fun slot => slot.1.key) ++ slot.1.key :: back.map fun slot => slot.1.key := by
    simp [Format.declared, hslots, Function.comp_def]
  by_cases hfits : before.length + (after.length + 1) ≤ format.declared.length ∧
    ∀ field ∈ format.declared.drop (before.length + (after.length + 1)), field.presence = .defaulted
  · refine .inr ⟨(front.map fun slot => slot.1.key).zip before,
      (back.map fun slot => slot.1.key).zip after, fun hm => ?_, fun json => ?_⟩
    · obtain ⟨⟨key, json⟩, hzip, rfl⟩ := List.mem_map.mp hm
      obtain ⟨other, hother, heq⟩ := List.mem_map.mp (List.of_mem_zip hzip).1
      have hdistinct := format.keys_distinct
      rw [hslots, List.pairwise_append] at hdistinct
      exact hdistinct.2.2 other hother slot (by simp) heq
    · refine Json.positional?_eq_some.mpr ⟨by simpa using hfits.1, by simpa using hfits.2, ?_⟩
      rw [hkeys, List.zip_append (by simpa using hlength), List.zip_cons_cons]
  · refine .inl fun json => Option.eq_none_iff_forall_ne_some.mpr fun fields hfields => hfits ?_
    obtain ⟨hlength, hdefaults, -⟩ := Json.positional?_eq_some.mp hfields
    exact ⟨by simpa using hlength, by simpa using hdefaults⟩

theorem item {before after : List Json} :
    Around (.list part) part n place fun json => .array (before ++ json :: after) := by
  cases n with
  | zero =>
    exact of_none (fun json => nofun) (fun json => Json.nesting_lt_array.le) fun json => rfl
  | succ n =>
    have hdecode (json : Json) :
        Format.decode (.list part) (n + 1) place (.array (before ++ json :: after)) =
          (before.mapM (part.decode n place)).bind fun front =>
            (part.decode n place json).bind fun value =>
              (after.mapM (part.decode n place)).map fun back => front ++ value :: back := by
      change (before ++ json :: after).mapM (part.decode n place) = _
      simp only [List.mapM_append, List.mapM_cons, Option.bind_eq_bind, Option.bind_assoc,
        Option.pure_def, Option.bind_some, Option.map_eq_bind]
      rfl
    cases hbefore : before.mapM (part.decode n place) with
    | none =>
      refine of_none (fun json => nofun) (fun json => Json.nesting_lt_array.le) fun json => ?_
      rw [hdecode, hbefore]
      rfl
    | some front =>
      refine ⟨n, place, fun value => (after.mapM (part.decode n place)).map fun back =>
        front ++ value :: back, fun json _ => ⟨nofun, fun hn => ?_, ?_⟩⟩
      · exact Nat.le_of_lt_succ (Json.nesting_lt_array.trans_le hn)
      · rw [hdecode, hbefore]
        rfl

theorem present : Around (.optional part) part n place id := by
  refine ⟨n, place, some ∘ some, fun json hjson => ⟨hjson, id, ?_⟩⟩
  have hdecode : Format.decode (.optional part) n place json
      = (part.decode n place json).map some := by
    cases json with
    | null => exact absurd rfl hjson
    | _ => rfl
  rw [id, hdecode]
  exact Option.map_eq_bind

theorem payload {tag : String} (h : (tag, part) ∈ format.variants) :
    Around format part n place fun json => .object [(some tag, json)] := by
  have hnesting (json : Json) : json.nesting < (Json.object [(some tag, json)]).nesting := by
    rw [← List.nil_append [_]]
    exact Json.nesting_lt_object
  cases n with
  | zero =>
    exact of_none (fun json => nofun) (fun json => (hnesting json).le)
      fun json => Format.decode_tagged_zero h place json
  | succ n =>
    obtain ⟨inject, hinject⟩ := Format.decode_tagged h
    refine ⟨n, place, some ∘ inject place, fun json _ => ⟨nofun, fun hn => ?_, ?_⟩⟩
    · exact Nat.le_of_lt_succ ((hnesting json).trans_le hn)
    · rw [hinject, Option.map_eq_bind]

end Around

/-! ## Around a part at any depth -/

/-- A place in a value of a format, given by what stands around it, and the format of what has to
stand there. -/
inductive Position : Format → Format → (Json → Json) → Prop
  /-- The whole value. -/
  | here {format : Format} : Position format format id
  /-- In a member of a record that is written as an object. -/
  | member {format part : Format} {slot : Field × Format} {around : Json → Json}
      {before after : List (Option String × Json)} (hslot : slot ∈ format.slots)
      (inner : Position slot.2 part around) :
      Position format part fun json => .object (before ++ (some slot.1.key, around json) :: after)
  /-- In an item of a record that is written as an array. -/
  | element {format part : Format} {slot : Field × Format} {around : Json → Json}
      {before after : List Json} (hslot : format.slots[before.length]? = some slot)
      (inner : Position slot.2 part around) :
      Position format part fun json => .array (before ++ around json :: after)
  /-- In an item of a list. -/
  | item {format part : Format} {around : Json → Json} {before after : List Json}
      (inner : Position format part around) :
      Position (.list format) part fun json => .array (before ++ around json :: after)
  /-- In a value that could be absent. -/
  | present {format part : Format} {around : Json → Json} (inner : Position format part around) :
      Position (.optional format) part around
  /-- In the payload of a variant. -/
  | payload {format variant part : Format} {tag : String} {around : Json → Json}
      (hvariant : (tag, variant) ∈ format.variants) (inner : Position variant part around) :
      Position format part fun json => .object [(some tag, around json)]

/-- The value of what stands at a position is all that the rest makes use of. -/
theorem Position.around {format part : Format} {around : Json → Json}
    (h : Position format part around) (n : Nat) (place : Span) :
    Around format part n place around := by
  induction h generalizing n place with
  | here => exact .refl
  | member hslot _ ih => exact (Around.member hslot).trans ih
  | element hslot _ ih => exact (Around.element hslot).trans ih
  | item _ ih => exact Around.item.trans ih
  | present _ ih => exact Around.present.trans ih
  | payload hvariant _ ih => exact (Around.payload hvariant).trans ih

/-- A part that can be spelled differently can be so inside of anything else. -/
theorem Position.respell {format part : Format} {around : Json → Json}
    (h : Position format part around) {json json' : Json} (hjson : json ≠ .null)
    (hjson' : json' ≠ .null) {n : Nat}
    (hpart : ∀ m place value, json'.nesting ≤ m → part.decode m place json = some value →
      part.decode m place json' = some value)
    (hn : (around json').nesting ≤ n) {place : Span} {value : format.Value}
    (hvalue : format.decode n place (around json) = some value) :
    format.decode n place (around json') = some value := by
  obtain ⟨m, inner, rest, hrest⟩ := h.around n place
  obtain ⟨-, -, hdecode⟩ := hrest json hjson
  obtain ⟨-, hnesting, hdecode'⟩ := hrest json' hjson'
  rw [hdecode] at hvalue
  obtain ⟨found, hfound, hrest⟩ := Option.bind_eq_some_iff.mp hvalue
  rw [hdecode', hpart m inner found (hnesting hn) hfound]
  exact hrest

/-- A part that cannot be decoded makes everything around it unreadable. -/
theorem Position.refuse {format part : Format} {around : Json → Json}
    (h : Position format part around) {json : Json} (hjson : json ≠ .null)
    (hpart : ∀ m place, part.decode m place json = none) (n : Nat) (place : Span) :
    format.decode n place (around json) = none := by
  obtain ⟨m, inner, rest, hrest⟩ := h.around n place
  obtain ⟨-, -, hdecode⟩ := hrest json hjson
  rw [hdecode, hpart, Option.bind_none]

end NativeLowering
