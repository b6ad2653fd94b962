import NativeLowering.Proofs.Model.Build

/-!
# Tables put together from parts

What a declaration brings into tables does not depend on what is in them already: it is what the
declaration brings into empty tables. So a round of declarations is a list of parts, one for each
declaration, and the order of the steps is gone from the question whether the round goes through:
it does so exactly if any two parts are compatible (`Gathers.round`, `Gathers.complete_round`). What
a name then stands for is what it stands for in the first part that knows it (`Knows`).
-/

set_option autoImplicit false

namespace NativeLowering

theorem findSome?_pair {α β : Type} (f : α → Option β) (first second : α) :
    [first, second].findSome? f = (f first).or (f second) := by
  cases hfirst : f first with
  | none => cases hsecond : f second <;> simp [hfirst, hsecond]
  | some found => simp [hfirst]

/-- If at most one of the elements has a result, it does not matter which comes first. -/
theorem findSome?_eq_some_iff_exists {α β : Type} {f : α → Option β} {items : List α}
    (h : items.Pairwise fun first second => f first = none ∨ f second = none) {result : β} :
    items.findSome? f = some result ↔ ∃ item ∈ items, f item = some result := by
  constructor
  · exact List.exists_of_findSome?_eq_some
  · rintro ⟨item, hmem, hitem⟩
    induction items with
    | nil => cases hmem
    | cons first rest ih =>
      obtain ⟨hfirst, hrest⟩ := List.pairwise_cons.mp h
      rcases List.mem_cons.mp hmem with rfl | hmem
      · simp [hitem]
      · have hnone : f first = none := by
          rcases hfirst item hmem with hnone | hnone
          · exact hnone
          · rw [hitem] at hnone
            cases hnone
        rw [List.findSome?_cons, hnone]
        exact ih hrest hmem

theorem findSome?_perm {α β : Type} {f : α → Option β} {items items' : List α}
    (h : items.Pairwise fun first second => f first = none ∨ f second = none)
    (hperm : items.Perm items') : items'.findSome? f = items.findSome? f := by
  have h' : items'.Pairwise fun first second => f first = none ∨ f second = none :=
    (hperm.pairwise_iff fun {_ _} hpair => hpair.symm).mp h
  ext result
  rw [findSome?_eq_some_iff_exists h', findSome?_eq_some_iff_exists h]
  constructor
  · rintro ⟨item, hmem, hitem⟩
    exact ⟨item, hperm.mem_iff.mpr hmem, hitem⟩
  · rintro ⟨item, hmem, hitem⟩
    exact ⟨item, hperm.mem_iff.mp hmem, hitem⟩

namespace Tables

/-! ## Compatible tables -/

/-- No name stands for something in both tables, except that as a value it may stand in both for a
symbol that may share its name. -/
structure Compatible (May : Symbol → Prop) (first second : Tables) : Prop where
  value : ∀ name one two, first.resolve? name = some one → second.resolve? name = some two →
    May one ∧ May two
  type : ∀ name, first.resolveType? name = none ∨ second.resolveType? name = none
  module : ∀ specifier, first.module? specifier = none ∨ second.module? specifier = none

/-- What a name stands for in the tables is what it stands for in the first part that knows it. -/
structure Knows (parts : List Tables) (whole : Tables) : Prop where
  value : ∀ name, whole.resolve? name = parts.findSome? fun part => part.resolve? name
  type : ∀ name, whole.resolveType? name = parts.findSome? fun part => part.resolveType? name
  module : ∀ specifier, whole.module? specifier = parts.findSome? fun part => part.module? specifier

section Parts

variable {May : Symbol → Prop} {first second whole other : Tables} {parts rest : List Tables}

theorem Compatible.symm (h : Compatible May first second) : Compatible May second first where
  value name one two hone htwo := (h.value name two one htwo hone).symm
  type name := (h.type name).symm
  module specifier := (h.module specifier).symm

theorem compatible_empty (May : Symbol → Prop) (tables : Tables) : Compatible May {} tables := by
  refine ⟨?_, fun _ => .inl rfl, fun _ => .inl rfl⟩
  intro name one two hone
  cases hone

theorem Knows.single (tables : Tables) : Knows [tables] tables := by
  constructor <;> intro name <;> simp

theorem Knows.of_empty (h : Knows ({} :: parts) whole) : Knows parts whole :=
  ⟨h.value, h.type, h.module⟩

/-- Parts of a part are parts. -/
theorem Knows.trans (h : Knows parts whole) (h' : Knows (whole :: rest) other) :
    Knows (parts ++ rest) other := by
  have hsplit {β : Type} (f : Tables → Option β) (hf : f whole = parts.findSome? f) :
      (whole :: rest).findSome? f = (parts ++ rest).findSome? f := by
    rw [List.findSome?_append, List.findSome?_cons, hf]
    cases parts.findSome? f <;> rfl
  constructor
  · intro name
    rw [h'.value, hsplit _ (h.value name)]
  · intro name
    rw [h'.type, hsplit _ (h.type name)]
  · intro specifier
    rw [h'.module, hsplit _ (h.module specifier)]

/-- A name is unknown to the whole if it is unknown to every part. -/
theorem unknown_or {β : Type} (f : Tables → Option β) {P : Prop}
    (h : f whole = parts.findSome? f) :
    (f whole = none ∨ P) ↔ ∀ part ∈ parts, f part = none ∨ P := by
  rw [h, List.findSome?_eq_none_iff]
  by_cases hP : P <;> simp [hP]

/-- Tables are compatible with a whole if they are compatible with every part. The parts have to be
compatible among themselves, since the whole shows the first of those that share a name only. -/
theorem Knows.compatible_iff (h : Knows parts whole) (hparts : parts.Pairwise (Compatible May)) :
    Compatible May whole other ↔ ∀ part ∈ parts, Compatible May part other := by
  constructor
  · intro hwhole part hpart
    have htype (name : String) := (unknown_or (·.resolveType? name) (h.type name)).mp
      (hwhole.type name) part hpart
    have hmodule (specifier : String) :=
      (unknown_or (·.module? specifier) (h.module specifier)).mp
        (hwhole.module specifier) part hpart
    refine ⟨?_, htype, hmodule⟩
    intro name one two hone htwo
    cases hfound : whole.resolve? name with
    | none =>
      rw [h.value name, List.findSome?_eq_none_iff] at hfound
      cases hone.symm.trans (hfound part hpart)
    | some found =>
      obtain ⟨hfoundMay, htwoMay⟩ := hwhole.value name found two hfound htwo
      refine ⟨?_, htwoMay⟩
      -- The whole shows this part, or an earlier one with which this part shares the name.
      rw [h.value name] at hfound
      obtain ⟨early, next, late, rfl, hnext, hearly⟩ := List.findSome?_eq_some_iff.mp hfound
      rcases List.mem_append.mp hpart with hpart | hpart
      · cases hone.symm.trans (hearly part hpart)
      · rcases List.mem_cons.mp hpart with rfl | hpart
        · obtain rfl : found = one := Option.some.inj (hnext.symm.trans hone)
          exact hfoundMay
        · have hlate := (List.pairwise_cons.mp (List.pairwise_append.mp hparts).2.1).1 part hpart
          exact (hlate.value name found one hnext hone).2
  · intro hall
    have htype (name : String) := (unknown_or (·.resolveType? name) (h.type name)).mpr
      fun part hpart => (hall part hpart).type name
    have hmodule (specifier : String) :=
      (unknown_or (·.module? specifier) (h.module specifier)).mpr
        fun part hpart => (hall part hpart).module specifier
    refine ⟨?_, htype, hmodule⟩
    intro name one two hone htwo
    rw [h.value name] at hone
    obtain ⟨part, hpart, hone⟩ := List.exists_of_findSome?_eq_some hone
    exact (hall part hpart).value name one two hone htwo

/-- No name stands for something in both tables. -/
abbrev Apart (first second : Tables) : Prop := Compatible (fun _ => False) first second

theorem apart_iff :
    Apart first second ↔
      (∀ name, first.resolve? name = none ∨ second.resolve? name = none) ∧
      (∀ name, first.resolveType? name = none ∨ second.resolveType? name = none) ∧
      ∀ specifier, first.module? specifier = none ∨ second.module? specifier = none := by
  constructor
  · intro h
    refine ⟨?_, h.type, h.module⟩
    intro name
    cases hone : first.resolve? name with
    | none => exact .inl rfl
    | some one =>
      cases htwo : second.resolve? name with
      | none => exact .inr rfl
      | some two => exact (h.value name one two hone htwo).1.elim
  · rintro ⟨hvalue, htype, hmodule⟩
    refine ⟨?_, htype, hmodule⟩
    intro name one two hone htwo
    rcases hvalue name with hnone | hnone
    · cases hone.symm.trans hnone
    · cases htwo.symm.trans hnone

/-- Tables are apart from a whole if they are apart from every part, whatever the parts share. -/
theorem Knows.apart_iff (h : Knows parts whole) :
    Apart whole other ↔ ∀ part ∈ parts, Apart part other := by
  have hvalue (name : String) :=
    unknown_or (P := other.resolve? name = none) (·.resolve? name) (h.value name)
  have htype (name : String) :=
    unknown_or (P := other.resolveType? name = none) (·.resolveType? name) (h.type name)
  have hmodule (specifier : String) :=
    unknown_or (P := other.module? specifier = none) (·.module? specifier) (h.module specifier)
  simp only [Tables.apart_iff, hvalue, htype, hmodule]
  constructor
  · rintro ⟨hvalues, htypes, hmodules⟩ part hpart
    exact ⟨fun name => hvalues name part hpart, fun name => htypes name part hpart,
      fun specifier => hmodules specifier part hpart⟩
  · intro hall
    exact ⟨fun name part hpart => (hall part hpart).1 name,
      fun name part hpart => (hall part hpart).2.1 name,
      fun specifier part hpart => (hall part hpart).2.2 specifier⟩

end Parts

/-! ## Rounds -/

section Rounds

variable {δ : Type} {May : Symbol → Prop} {step : Tables → δ → Lowered Tables}

/-- The step brings an item's own part into any tables, the one it brings into the empty ones, and
goes through exactly if that is compatible with what is there. -/
structure GathersAt (May : Symbol → Prop) (step : Tables → δ → Lowered Tables) (item : δ) :
    Prop where
  sound : ∀ {tables after : Tables}, step tables item = .ok after →
    ∃ own, step {} item = .ok own ∧ Compatible May tables own ∧ Knows [tables, own] after
  complete : ∀ {tables own : Tables}, step {} item = .ok own → Compatible May tables own →
    ∃ after, step tables item = .ok after

/-- The step does so with every item. -/
def Gathers (May : Symbol → Prop) (step : Tables → δ → Lowered Tables) : Prop :=
  ∀ item, GathersAt May step item

/-- Each item with what it brings in. -/
def Brings (step : Tables → δ → Lowered Tables) (items : List δ) (parts : List Tables) : Prop :=
  List.Forall₂ (fun item own => step {} item = .ok own) items parts

theorem Brings.exists_of_mem {items : List δ} {parts : List Tables} {part : Tables}
    (h : Brings step items parts) (hpart : part ∈ parts) :
    ∃ item ∈ items, step {} item = .ok part := by
  induction h with
  | nil => cases hpart
  | @cons item own items parts hown _ ih =>
    rcases List.mem_cons.mp hpart with rfl | hpart
    · exact ⟨item, by simp, hown⟩
    · obtain ⟨other, hother, hstep⟩ := ih hpart
      exact ⟨other, by simp [hother], hstep⟩

theorem Brings.split {before behind : List δ} {item : δ} {parts : List Tables}
    (h : Brings step (before ++ item :: behind) parts) :
    ∃ early own late, parts = early ++ own :: late ∧ Brings step before early ∧
      step {} item = .ok own := by
  induction before generalizing parts with
  | nil =>
    obtain ⟨own, late, hown, -, rfl⟩ := List.forall₂_cons_left_iff.mp h
    exact ⟨[], own, late, rfl, .nil, hown⟩
  | cons first before ih =>
    obtain ⟨part, rest, hpart, hrest, rfl⟩ := List.forall₂_cons_left_iff.mp h
    obtain ⟨early, own, late, rfl, hearly, hown⟩ := ih hrest
    exact ⟨part :: early, own, late, rfl, .cons hpart hearly, hown⟩

/-- A round that goes through brings in compatible parts. -/
theorem Gathers.round (h : Gathers May step) : ∀ {items : List δ} {tables after : Tables},
    items.foldlM step tables = .ok after →
    ∃ parts, Brings step items parts ∧ (∀ part ∈ parts, Compatible May tables part) ∧
      parts.Pairwise (Compatible May) ∧ Knows (tables :: parts) after
  | [], tables, after, hrun => by
    obtain rfl := Lowered.pure_eq_ok.mp hrun
    exact ⟨[], .nil, by simp, .nil, .single _⟩
  | item :: rest, tables, after, hrun => by
    rw [List.foldlM_cons, Lowered.bind_eq_ok] at hrun
    obtain ⟨between, hitem, hrest⟩ := hrun
    obtain ⟨own, hown, hfits, hbetween⟩ := (h item).sound hitem
    obtain ⟨parts, hparts, hall, hpairwise, hafter⟩ := h.round hrest
    have hpair : [tables, own].Pairwise (Compatible May) := by simpa using hfits
    have hboth : ∀ part ∈ parts, Compatible May tables part ∧ Compatible May own part := by
      intro part hpart
      have heach := (hbetween.compatible_iff hpair).mp (hall part hpart)
      exact ⟨heach tables (by simp), heach own (by simp)⟩
    refine ⟨own :: parts, .cons hown hparts, ?_, ?_, hbetween.trans hafter⟩
    · exact List.forall_mem_cons.mpr ⟨hfits, fun part hpart => (hboth part hpart).1⟩
    · exact List.pairwise_cons.mpr ⟨fun part hpart => (hboth part hpart).2, hpairwise⟩

/-- A round that would bring in compatible parts goes through. -/
theorem Gathers.complete_round (h : Gathers May step) : ∀ (tables : Tables) {items : List δ}
    {parts : List Tables}, Brings step items parts → (∀ part ∈ parts, Compatible May tables part) →
    parts.Pairwise (Compatible May) →
    ∃ after, items.foldlM step tables = .ok after ∧ Knows (tables :: parts) after
  | tables, _, _, .nil, _, _ => ⟨tables, rfl, .single tables⟩
  | tables, item :: _, own :: _, .cons hown hparts, hall, hpairwise => by
    obtain ⟨hfits, hall⟩ := List.forall_mem_cons.mp hall
    obtain ⟨hfirst, hpairwise⟩ := List.pairwise_cons.mp hpairwise
    obtain ⟨between, hitem⟩ := (h item).complete hown hfits
    obtain ⟨own', hown', -, hbetween⟩ := (h item).sound hitem
    cases hown.symm.trans hown'
    have hpair : [tables, own].Pairwise (Compatible May) := by simpa using hfits
    obtain ⟨after, hrest, hafter⟩ := h.complete_round between hparts (by
      intro part hpart
      refine (hbetween.compatible_iff hpair).mpr ?_
      simpa using ⟨hall part hpart, hfirst part hpart⟩) hpairwise
    refine ⟨after, ?_, hbetween.trans hafter⟩
    rw [List.foldlM_cons, Lowered.bind_eq_ok]
    exact ⟨between, hitem, hrest⟩

/-- A round is itself a step that gathers. -/
theorem Gathers.foldlM (h : Gathers May step) :
    Gathers May fun tables (items : List δ) => items.foldlM step tables := fun items => {
  sound {tables after} hrun := by
    obtain ⟨parts, hparts, hall, hpairwise, hafter⟩ := h.round hrun
    obtain ⟨own, hown, hknows⟩ := h.complete_round {} hparts
      (fun part _ => compatible_empty May part) hpairwise
    refine ⟨own, hown, ?_, ?_⟩
    · refine ((hknows.of_empty.compatible_iff hpairwise).mpr fun part hpart => ?_).symm
      exact (hall part hpart).symm
    · have hsplit {β : Type} (f : Tables → Option β) (hf : f own = parts.findSome? f) :
          (tables :: parts).findSome? f = [tables, own].findSome? f := by
        rw [findSome?_pair, List.findSome?_cons, hf]
        cases f tables <;> rfl
      refine ⟨fun name => ?_, fun name => ?_, fun specifier => ?_⟩
      · rw [hafter.value, hsplit _ (hknows.of_empty.value name)]
      · rw [hafter.type, hsplit _ (hknows.of_empty.type name)]
      · rw [hafter.module, hsplit _ (hknows.of_empty.module specifier)]
  complete {tables own} hown hfits := by
    obtain ⟨parts, hparts, -, hpairwise, hknows⟩ := h.round hown
    have hall := (hknows.of_empty.compatible_iff hpairwise).mp hfits.symm
    obtain ⟨after, hrun, -⟩ := h.complete_round tables hparts
      (fun part hpart => (hall part hpart).symm) hpairwise
    exact ⟨after, hrun⟩ }

end Rounds

/-! ## Entering into a table -/

section Tables

variable {α : Type} {table : List (String × α)} {name : String}

theorem fresh_iff (value : α) :
    table.lookup name = none ↔
      ∀ other, table.lookup other = none ∨ [(name, value)].lookup other = none := by
  constructor
  · intro h other
    by_cases hother : other = name
    · subst hother
      exact .inl h
    · refine .inr ?_
      rw [List.lookup_cons, beq_false_of_ne hother]
      rfl
  · intro h
    exact (h name).resolve_right (by simp)

theorem lookup_append_or (first second : List (String × α)) (name : String) :
    (first ++ second).lookup name = (first.lookup name).or (second.lookup name) := by
  induction first with
  | nil => rfl
  | cons entry rest ih =>
    rw [List.cons_append, List.lookup_cons, List.lookup_cons, ih]
    cases name == entry.1 <;> rfl

end Tables

/-- The tables with more entries in front. -/
def under (tables own : Tables) : Tables :=
  { values := own.values ++ tables.values, types := own.types ++ tables.types
    modules := own.modules ++ tables.modules }

section Entering

variable {May : Symbol → Prop} {tables own : Tables}

theorem Apart.compatible (h : Apart tables own) : Compatible May tables own :=
  ⟨fun name one two hone htwo => (h.value name one two hone htwo).1.elim, h.type, h.module⟩

theorem Compatible.apart (h : Compatible May tables own)
    (hown : ∀ name symbol, own.resolve? name = some symbol → ¬ May symbol) : Apart tables own where
  value name one two hone htwo := (hown name two htwo (h.value name one two hone htwo).2).elim
  type := h.type
  module := h.module

theorem Apart.knows (h : Apart tables own) : Knows [tables, own] (tables.under own) := by
  obtain ⟨hvalue, htype, hmodule⟩ := apart_iff.mp h
  have hswap {β : Type} {first second : Option β} (hone : first = none ∨ second = none) :
      second.or first = first.or second := by
    rcases hone with rfl | rfl
    · cases second <;> rfl
    · cases first <;> rfl
  constructor <;> intro name <;> rw [findSome?_pair]
  · exact (lookup_append_or own.values tables.values name).trans (hswap (hvalue name))
  · exact (lookup_append_or own.types tables.types name).trans (hswap (htype name))
  · exact (lookup_append_or own.modules tables.modules name).trans (hswap (hmodule name))

end Entering

/-! ## Steps that enter -/

section Steps

variable {δ : Type} {May : Symbol → Prop} {step : Tables → δ → Lowered Tables}

theorem under_empty (own : Tables) : under {} own = own := by simp [under]

/-- An item gathers if the step enters its part, as nothing that is known already. -/
theorem GathersAt.of_fresh {item : δ} (source : Lowered Tables)
    (hstep : ∀ tables after, step tables item = .ok after ↔
      ∃ own, source = .ok own ∧ Apart tables own ∧ after = tables.under own)
    (hown : ∀ own, source = .ok own → ∀ name symbol, own.resolve? name = some symbol →
      ¬ May symbol) : GathersAt May step item where
  sound {tables after} hrun := by
    obtain ⟨own, hsource, hapart, rfl⟩ := (hstep tables after).mp hrun
    refine ⟨own, ?_, hapart.compatible, hapart.knows⟩
    exact (hstep {} own).mpr ⟨own, hsource, compatible_empty _ own, (under_empty own).symm⟩
  complete {tables own'} hrun hfits := by
    obtain ⟨own, hsource, -, rfl⟩ := (hstep {} own').mp hrun
    rw [under_empty] at hfits
    exact ⟨_, (hstep tables _).mpr ⟨own, hsource, hfits.apart (hown own hsource), rfl⟩⟩

/-- An item that the step passes over gathers. -/
theorem GathersAt.of_id {item : δ} (h : ∀ tables, step tables item = .ok tables) :
    GathersAt May step item := by
  refine GathersAt.of_fresh (.ok {}) ?_ ?_
  · intro tables after
    rw [h tables]
    constructor
    · intro h
      cases h
      exact ⟨{}, rfl, (compatible_empty _ _).symm, rfl⟩
    · rintro ⟨own, hown, -, rfl⟩
      cases hown
      rfl
  · intro own hown name symbol hsymbol
    cases hown
    cases hsymbol

theorem GathersAt.congr {ε : Type} {step' : Tables → ε → Lowered Tables} {item : δ} {item' : ε}
    (h : GathersAt May step item)
    (heq : ∀ tables, step' tables item' = step tables item) : GathersAt May step' item' := by
  constructor <;> simp only [heq]
  · exact h.sound
  · exact h.complete

end Steps

end Tables

end NativeLowering
