import Mathlib
import NativeLowering.Json.Record

/-!
# The fields that are written

Both forms of a record are opened into the same kind of list (`Json.openRecord`), and of that list
only `List.lookup` is asked afterwards. So two ways to write a record come to the same if what is
found under each declared key does. The lemmas here say what an object and an array are opened into,
and how a lookup fares when members change places, come or go.

They all rest on keys that occur once: with two members under one key the order would decide.
-/

set_option autoImplicit false

namespace NativeLowering.Json

/-! ## Looking up a key -/

section Lookup

variable {fields fields' before after : Fields} {key other : String} {value : Json}

/-- A key that occurs once is found with the value it stands with. -/
theorem lookup_eq_some_of_once (h : (fields.map Prod.fst).count key ≤ 1) :
    fields.lookup key = some value ↔ (key, value) ∈ fields := by
  induction fields with
  | nil => simp
  | cons field rest ih =>
    obtain ⟨found, json⟩ := field
    rw [List.map_cons, List.count_cons] at h
    by_cases hkey : found = key
    · subst hkey
      -- No member behind the first has the key.
      have hrest : (found, value) ∉ rest := by
        intro hm
        have hcount : 0 < (rest.map Prod.fst).count found :=
          List.count_pos_iff.mpr (List.mem_map_of_mem hm)
        simp only [beq_self_eq_true, if_true] at h
        omega
      simp [hrest, eq_comm]
    · have hne : (key == found) = false := by simpa using Ne.symm hkey
      have hbehind : (rest.map Prod.fst).count key ≤ 1 := by omega
      simp [List.lookup_cons, hne, ih hbehind, Ne.symm hkey]

theorem lookup_perm (hperm : fields.Perm fields') (h : (fields.map Prod.fst).count key ≤ 1) :
    fields'.lookup key = fields.lookup key := by
  have h' : (fields'.map Prod.fst).count key ≤ 1 := by
    rwa [← (hperm.map Prod.fst).count_eq key]
  ext value
  rw [lookup_eq_some_of_once h, lookup_eq_some_of_once h', hperm.mem_iff]

theorem lookup_insert_of_ne (h : key ≠ other) :
    (before ++ (other, value) :: after).lookup key = (before ++ after).lookup key := by
  have hne : (key == other) = false := by simpa using h
  simp [List.lookup_append, List.lookup_cons, hne]

theorem lookup_insert_self (h : key ∉ before.map Prod.fst) :
    (before ++ (key, value) :: after).lookup key = some value := by
  have hbefore : before.lookup key = none := by
    rw [List.lookup_eq_none_iff]
    intro field hfield
    have hne : field.1 ≠ key := fun heq => h (heq ▸ List.mem_map_of_mem hfield)
    simpa using hne.symm
  simp [List.lookup_append, hbefore]

theorem lookup_of_absent (h : key ∉ fields.map Prod.fst) : fields.lookup key = none := by
  rw [List.lookup_eq_none_iff]
  intro field hfield
  have hne : field.1 ≠ key := fun heq => h (heq ▸ List.mem_map_of_mem hfield)
  simpa using hne.symm

end Lookup

/-! ## Objects -/

/-- The members of an object with the given fields. -/
def membersOf (fields : Fields) : List (Option String × Json) :=
  fields.map fun field => (some field.1, field.2)

theorem textMembers?_eq_some {members : List (Option String × Json)} {fields : Fields} :
    textMembers? members = some fields ↔ members = membersOf fields := by
  induction members generalizing fields with
  | nil => cases fields <;> simp [textMembers?, membersOf]
  | cons member rest ih =>
    obtain ⟨key, value⟩ := member
    cases key with
    | none => cases fields <;> simp [textMembers?, membersOf]
    | some key =>
      cases fields with
      | nil => simp [textMembers?, membersOf]
      | cons field others =>
        have hrest := @ih others
        obtain ⟨other, json⟩ := field
        simp only [membersOf, List.map_cons, List.cons.injEq, Prod.mk.injEq, Option.some.injEq,
          textMembers?, Option.map_eq_some_iff] at hrest ⊢
        constructor
        · rintro ⟨found, hfound, ⟨rfl, rfl⟩, rfl⟩
          exact ⟨⟨rfl, rfl⟩, hrest.mp hfound⟩
        · rintro ⟨⟨rfl, rfl⟩, hmembers⟩
          exact ⟨others, hrest.mpr hmembers, ⟨rfl, rfl⟩, rfl⟩

theorem keysOnce_iff {declared : List Field} {fields : Fields} :
    keysOnce declared fields = true ↔
      ∀ field ∈ declared, (fields.map Prod.fst).count field.key ≤ 1 := by
  have hcount (key : String) :
      (fields.filter fun member => member.1 == key).length = (fields.map Prod.fst).count key := by
    rw [List.count, List.countP_map, List.countP_eq_length_filter]
    rfl
  simp [keysOnce, hcount]

theorem openRecord_object {declared : List Field} {members : List (Option String × Json)}
    {fields : Fields} : openRecord declared (.object members) = some fields ↔
      members = membersOf fields ∧
        ∀ field ∈ declared, (fields.map Prod.fst).count field.key ≤ 1 := by
  rw [← textMembers?_eq_some, ← keysOnce_iff, openRecord]
  cases textMembers? members with
  | none => simp
  | some found =>
    simp only [Option.bind_some, Option.some.injEq]
    constructor
    · intro h
      split at h
      · cases h
        exact ⟨rfl, ‹_›⟩
      · cases h
    · rintro ⟨rfl, hkeys⟩
      rw [if_pos hkeys]

theorem count_membersOf {fields : Fields} {key : String} :
    ((membersOf fields).map Prod.fst).count (some key) = (fields.map Prod.fst).count key := by
  have hkeys : (membersOf fields).map Prod.fst = (fields.map Prod.fst).map some := by
    simp [membersOf]
  rw [hkeys, List.count_map_of_injective _ _ (Option.some_injective String)]

/-- Members that change places are still the members of some fields. -/
theorem membersOf_perm {fields : Fields} {members : List (Option String × Json)}
    (h : (membersOf fields).Perm members) :
    ∃ fields', members = membersOf fields' ∧ fields.Perm fields' := by
  have hfields (fields : Fields) :
      (membersOf fields).filterMap (fun member => member.1.map fun key => (key, member.2))
        = fields := by
    simp [membersOf, List.filterMap_map]
  have hperm := h.filterMap fun member => member.1.map fun key => (key, member.2)
  rw [hfields] at hperm
  refine ⟨_, ?_, hperm⟩
  have hkeys : ∀ member ∈ members, ∃ key, member.1 = some key := by
    intro member hm
    obtain ⟨field, -, rfl⟩ := List.mem_map.mp (h.mem_iff.mpr hm)
    exact ⟨field.1, rfl⟩
  clear h hperm
  induction members with
  | nil => rfl
  | cons member rest ih =>
    obtain ⟨key, hkey⟩ := hkeys member (by simp)
    rw [List.filterMap_cons_some (by rw [hkey]; rfl), membersOf, List.map_cons]
    refine congrArg₂ List.cons (Prod.ext hkey rfl) ?_
    exact ih fun other hm => hkeys other (by simp [hm])

/-- Whether declared keys occur once, around one of the keys. -/
theorem once_insert {declared : List Field} {front back : List String} {key : String} :
    (∀ field ∈ declared, (front ++ key :: back).count field.key ≤ 1) ↔
      (∀ field ∈ declared, (front ++ back).count field.key ≤ 1) ∧
        ∀ field ∈ declared, field.key = key → key ∉ front ++ back := by
  have hcount (other : String) : (front ++ key :: back).count other =
      (front ++ back).count other + if key = other then 1 else 0 := by
    simp only [List.count_append, List.count_cons, beq_iff_eq]
    omega
  constructor
  · intro h
    refine ⟨fun field hfield => ?_, fun field hfield hkey hm => ?_⟩
    · have honce := h field hfield
      rw [hcount] at honce
      omega
    · have honce := h field hfield
      rw [hcount, if_pos hkey.symm, hkey] at honce
      have hpos := List.count_pos_iff.mpr hm
      omega
  · rintro ⟨honce, habsent⟩ field hfield
    rw [hcount]
    by_cases hkey : field.key = key
    · rw [if_pos hkey.symm, hkey, List.count_eq_zero.mpr (habsent field hfield hkey)]
    · rw [if_neg (Ne.symm hkey)]
      exact honce field hfield

/-- An object that is seen in two parts. -/
theorem openRecord_append {declared : List Field} {before after : List (Option String × Json)}
    {fields : Fields} : openRecord declared (.object (before ++ after)) = some fields ↔
      ∃ front back, before = membersOf front ∧ after = membersOf back ∧ fields = front ++ back ∧
        ∀ field ∈ declared, (front.map Prod.fst ++ back.map Prod.fst).count field.key ≤ 1 := by
  rw [openRecord_object]
  constructor
  · rintro ⟨hmembers, honce⟩
    obtain ⟨front, back, rfl, hfront, hback⟩ := List.append_eq_map_iff.mp hmembers
    exact ⟨front, back, hfront.symm, hback.symm, rfl, by simpa using honce⟩
  · rintro ⟨front, back, rfl, rfl, rfl, honce⟩
    exact ⟨by simp [membersOf], by simpa using honce⟩

/-- An object around one of its members. -/
theorem openRecord_member {declared : List Field} {before after : List (Option String × Json)}
    {key : String} {value : Json} {fields : Fields} :
    openRecord declared (.object (before ++ (some key, value) :: after)) = some fields ↔
      ∃ front back, before = membersOf front ∧ after = membersOf back ∧
        fields = front ++ (key, value) :: back ∧ ∀ field ∈ declared,
          (front.map Prod.fst ++ key :: back.map Prod.fst).count field.key ≤ 1 := by
  rw [openRecord_append]
  constructor
  · rintro ⟨front, others, hfront, hothers, hfields, honce⟩
    obtain ⟨⟨name, json⟩, back, rfl, hfield, hback⟩ := List.map_eq_cons_iff.mp hothers.symm
    cases hfield
    exact ⟨front, back, hfront, hback.symm, hfields, honce⟩
  · rintro ⟨front, back, hfront, rfl, hfields, honce⟩
    exact ⟨front, (key, value) :: back, hfront, rfl, hfields, honce⟩

/-! ## Arrays -/

/-- The items of an array stand for the first of the fields, and the others have defaults. -/
theorem positional?_eq_some {declared : List Field} {items : List Json} {fields : Fields} :
    positional? declared items = some fields ↔
      items.length ≤ declared.length ∧
        (∀ field ∈ declared.drop items.length, field.presence = .defaulted) ∧
        fields = (declared.map Field.key).zip items := by
  induction declared generalizing items fields with
  | nil =>
    cases items with
    | nil => simp [positional?, eq_comm]
    | cons item rest => simp [positional?]
  | cons field rest ih =>
    cases items with
    | nil =>
      have hrest := @ih [] fields
      by_cases hfield : field.presence = .defaulted
      · simpa [positional?, hfield] using hrest
      · simp [positional?, hfield]
    | cons item others =>
      simp only [positional?, Option.map_eq_some_iff, ih, List.length_cons, List.drop_succ_cons,
        List.map_cons, List.zip_cons_cons, Nat.succ_le_succ_iff]
      constructor
      · rintro ⟨found, ⟨hlength, hdefaults, rfl⟩, rfl⟩
        exact ⟨hlength, hdefaults, rfl⟩
      · rintro ⟨hlength, hdefaults, rfl⟩
        exact ⟨_, ⟨hlength, hdefaults, rfl⟩, rfl⟩

end NativeLowering.Json
