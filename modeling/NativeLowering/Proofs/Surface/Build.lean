import NativeLowering.Proofs.Surface.Spared

/-!
# Building a model with an addition

A declaration asks a model for its own name only, and changes what the model knows of that name only
(`declare_agree`); an import asks for its specifier and binds its local names (`bindImport_agree`).
So two models that agree on some names still agree on them after both have entered declarations of
these names, and one succeeds if the other does.

This is used in both directions. Entering the declarations of a prelude into the model of what
stands before it goes as it does into the empty model, if the names are new. And what stands behind
the prelude, which spares its names, goes as it does without the prelude. Together they give
`build_extended`: sources with the prelude added have a model, and it is the model without the
prelude, with the addition.
-/

set_option autoImplicit false

namespace NativeLowering

/-! ## Sources that spare an addition -/

namespace Addition

variable (added : Addition)

/-- The annotation of what a class member hands out is spared. -/
def SparesMember : ClassMember → Prop
  | .property _ decl => added.SparesOption decl.type
  | .method _ decl => added.SparesOption decl.returnType
  | .constructor .. => True

/-- What a model learns of a declared item is spared. -/
def SparesSignature : Decl → Prop
  | .classDecl _ decl => ∀ member ∈ decl.members, added.SparesMember member
  | .functionDecl _ decl => added.SparesOption decl.returnType
  | .interfaceDecl .. | .typeAlias .. | .importDecl .. | .moduleDecl .. => True

/-- The names that an import clause binds are spared. -/
def SparesClause : ImportClause → Prop
  | .whole name => added.Spares name
  | .named items => ∀ item ∈ items, added.Spares item.localName

/-- What a declaration tells a model is spared: its name, what it binds, and the annotations of what
it declares. -/
def SparesDecl : Decl → Prop
  | .importDecl _ decl =>
    (∀ specifier, decl.specifierText = .ok specifier → added.Spares specifier) ∧
      ∀ clause, decl.clause = some clause → added.SparesClause clause
  | .moduleDecl _ _ _ specifier body =>
    added.Spares specifier ∧ ∀ member ∈ body, added.SparesSignature member
  | decl => (∀ name, decl.name? = some name → added.Spares name) ∧ added.SparesSignature decl

end Addition

/-- The name of a function that is declared. -/
def Decl.functionName? : Decl → Option String
  | .functionDecl _ decl => decl.name
  | _ => none

/-- The names that the declarations of a prelude add. -/
def Addition.ofDecls (decls : List Decl) : Addition where
  names := decls.filterMap Decl.name?
  functions := decls.filterMap Decl.functionName?
  functions_subset := by
    intro name hname
    obtain ⟨decl, hmem, hdecl⟩ := List.mem_filterMap.mp hname
    refine List.mem_filterMap.mpr ⟨decl, hmem, ?_⟩
    cases decl with
    | functionDecl span decl => exact hdecl
    | _ => cases hdecl

/-! ## Models that agree on some names -/

/-- What a round does with one state it does with another, if each of its steps does so and keeps
what relates the states. -/
theorem foldlM_simulates {σ δ : Type} {step : σ → δ → Lowered σ} {R : σ → σ → Prop} {items : List δ}
    (hstep : ∀ state state' item after, item ∈ items → R state state' →
      step state item = .ok after → ∃ after', step state' item = .ok after' ∧ R after after')
    {state state' after : σ} (h : R state state') (hrun : items.foldlM step state = .ok after) :
    ∃ after', items.foldlM step state' = .ok after' ∧ R after after' := by
  induction items generalizing state state' with
  | nil =>
    obtain rfl := Lowered.pure_eq_ok.mp hrun
    exact ⟨state', rfl, h⟩
  | cons item rest ih =>
    rw [List.foldlM_cons, Lowered.bind_eq_ok] at hrun
    obtain ⟨between, hitem, hrest⟩ := hrun
    obtain ⟨between', hitem', hbetween⟩ := hstep state state' item between (by simp) h hitem
    obtain ⟨after', hrest', hafter⟩ :=
      ih (fun _ _ other _ hmem => hstep _ _ other _ (by simp [hmem])) hbetween hrest
    refine ⟨after', ?_, hafter⟩
    rw [List.foldlM_cons, Lowered.bind_eq_ok]
    exact ⟨between', hitem', hrest'⟩

namespace Tables

/-- The tables know the same of every name that meets the condition. -/
structure AgreeOn (S : String → Prop) (tables tables' : Tables) : Prop where
  value : ∀ name, S name → tables'.resolve? name = tables.resolve? name
  type : ∀ name, S name → tables'.resolveType? name = tables.resolveType? name
  module : ∀ name, S name → tables'.module? name = tables.module? name

variable {S : String → Prop} {tables tables' first second third : Tables}

theorem AgreeOn.refl (S : String → Prop) (tables : Tables) : AgreeOn S tables tables :=
  ⟨fun _ _ => rfl, fun _ _ => rfl, fun _ _ => rfl⟩

theorem AgreeOn.trans (h : AgreeOn S first second) (h' : AgreeOn S second third) :
    AgreeOn S first third where
  value name hname := (h'.value name hname).trans (h.value name hname)
  type name hname := (h'.type name hname).trans (h.type name hname)
  module name hname := (h'.module name hname).trans (h.module name hname)

theorem AgreeOn.imp {T : String → Prop} (h : AgreeOn S tables tables')
    (himp : ∀ name, T name → S name) : AgreeOn T tables tables' where
  value name hname := h.value name (himp name hname)
  type name hname := h.type name (himp name hname)
  module name hname := h.module name (himp name hname)

theorem AgreeOn.isOverload (h : AgreeOn S tables tables') {item : Item} (hname : S item.name) :
    tables'.names.isOverload item = tables.names.isOverload item := by
  have hvalue : tables'.names.resolve? item.name = tables.names.resolve? item.name :=
    h.value item.name hname
  simp only [Names.isOverload, Names.function?, hvalue]

end Tables

theorem lookup_cons_congr {α : Type} {table table' : List (String × α)} {name other : String}
    {value : α} (h : table'.lookup other = table.lookup other) :
    ((name, value) :: table').lookup other = ((name, value) :: table).lookup other := by
  rw [List.lookup_cons, List.lookup_cons, h]

theorem lookup_cons_of_ne {α : Type} {table : List (String × α)} {name other : String} {value : α}
    (hne : other ≠ name) : ((name, value) :: table).lookup other = table.lookup other := by
  rw [List.lookup_cons, beq_false_of_ne hne]

namespace Tables

section Entering

variable {S : String → Prop} {tables tables' after : Tables}

/-- The second tables take a step that the first have taken: they still agree where they did, and
elsewhere the second have not changed. -/
def Follows (S : String → Prop) (after tables' : Tables) (step : Lowered Tables) : Prop :=
  ∃ after', step = .ok after' ∧ AgreeOn S after after' ∧
    AgreeOn (fun name => ¬ S name) tables' after'

theorem Follows.refl (h : AgreeOn S tables tables') : Follows S tables tables' (.ok tables') :=
  ⟨tables', rfl, h, .refl _ _⟩

theorem AgreeOn.enterValue (h : AgreeOn S tables tables') {name : String} (hname : S name)
    {symbol : Symbol} {span : Span} {values : List (String × Symbol)}
    (hrun : enter tables.values name symbol span = .ok values) :
    ∃ values', enter tables'.values name symbol span = .ok values' ∧
      AgreeOn S { tables with values } { tables' with values := values' } ∧
      AgreeOn (fun name => ¬ S name) tables' { tables' with values := values' } := by
  obtain ⟨hnew, rfl⟩ := enter_eq_ok.mp hrun
  have hnew' : tables'.values.lookup name = none := (h.value name hname).trans hnew
  refine ⟨_, enter_eq_ok.mpr ⟨hnew', rfl⟩, ⟨?_, h.type, h.module⟩,
    ⟨?_, fun _ _ => rfl, fun _ _ => rfl⟩⟩
  · intro other hother
    exact lookup_cons_congr (h.value other hother)
  · intro other hother
    refine lookup_cons_of_ne ?_
    rintro rfl
    exact hother hname

theorem AgreeOn.enterType (h : AgreeOn S tables tables') {name : String} (hname : S name)
    {symbol : Symbol} {span : Span} {types : List (String × Symbol)}
    (hrun : enter tables.types name symbol span = .ok types) :
    ∃ types', enter tables'.types name symbol span = .ok types' ∧
      AgreeOn S { tables with types } { tables' with types := types' } ∧
      AgreeOn (fun name => ¬ S name) tables' { tables' with types := types' } := by
  obtain ⟨hnew, rfl⟩ := enter_eq_ok.mp hrun
  have hnew' : tables'.types.lookup name = none := (h.type name hname).trans hnew
  refine ⟨_, enter_eq_ok.mpr ⟨hnew', rfl⟩, ⟨h.value, ?_, h.module⟩,
    ⟨fun _ _ => rfl, ?_, fun _ _ => rfl⟩⟩
  · intro other hother
    exact lookup_cons_congr (h.type other hother)
  · intro other hother
    refine lookup_cons_of_ne ?_
    rintro rfl
    exact hother hname

theorem AgreeOn.enterModule (h : AgreeOn S tables tables') {specifier : String}
    (hname : S specifier) (ambient : AmbientModule) :
    AgreeOn S { tables with modules := (specifier, ambient) :: tables.modules }
        { tables' with modules := (specifier, ambient) :: tables'.modules } ∧
      AgreeOn (fun name => ¬ S name) tables'
        { tables' with modules := (specifier, ambient) :: tables'.modules } := by
  refine ⟨⟨h.value, h.type, ?_⟩, ⟨fun _ _ => rfl, fun _ _ => rfl, ?_⟩⟩
  · intro other hother
    exact lookup_cons_congr (h.module other hother)
  · intro other hother
    refine lookup_cons_of_ne ?_
    rintro rfl
    exact hother hname

/-! ### Declarations -/

theorem declare_agree (h : AgreeOn S tables tables') {decl : Decl}
    (hname : ∀ name, decl.name? = some name → S name) (hrun : declare tables decl = .ok after) :
    Follows S after tables' (declare tables' decl) := by
  cases declare_eq_ok.mp hrun with
  | importDecl => exact .refl h
  | classDecl hitem hvalues htypes =>
    have hown := hname _ (classItem_name hitem)
    obtain ⟨values', hvalues', hvalue, houter⟩ := h.enterValue hown hvalues
    obtain ⟨types', htypes', htype, houter'⟩ := hvalue.enterType hown htypes
    have hstep := declare_eq_ok.mpr (.classDecl hitem hvalues' htypes')
    exact ⟨_, hstep, htype, houter.trans houter'⟩
  | overload hitem hoverload =>
    rw [← h.isOverload (hname _ (functionItem_name hitem))] at hoverload
    exact ⟨tables', declare_eq_ok.mpr (.overload hitem hoverload), h, .refl _ _⟩
  | functionDecl hitem hfirst hvalues =>
    have hown := hname _ (functionItem_name hitem)
    obtain ⟨values', hvalues', hvalue, houter⟩ := h.enterValue hown hvalues
    rw [← h.isOverload hown] at hfirst
    exact ⟨_, declare_eq_ok.mpr (.functionDecl hitem hfirst hvalues'), hvalue, houter⟩
  | interfaceDecl htypes =>
    obtain ⟨types', htypes', htype, houter⟩ := h.enterType (hname _ rfl) htypes
    exact ⟨_, declare_eq_ok.mpr (.interfaceDecl htypes'), htype, houter⟩
  | typeAlias htypes =>
    obtain ⟨types', htypes', htype, houter⟩ := h.enterType (hname _ rfl) htypes
    exact ⟨_, declare_eq_ok.mpr (.typeAlias htypes'), htype, houter⟩
  | moduleDecl hnew hambient =>
    have hown := hname _ rfl
    obtain ⟨hmodule, houter⟩ := h.enterModule hown _
    rw [← h.module _ hown] at hnew
    exact ⟨_, declare_eq_ok.mpr (.moduleDecl hnew hambient), hmodule, houter⟩

/-! ### Imports -/

theorem bindItem_agree (h : AgreeOn S tables tables') {ambient : AmbientModule} {span : Span}
    {item : ImportItem} (hname : S item.localName)
    (hrun : bindItem ambient span tables item = .ok after) :
    Follows S after tables' (bindItem ambient span tables' item) := by
  obtain ⟨member, values, types, hmember, hvalues, htypes, rfl⟩ := bindItem_eq_ok.mp hrun
  obtain ⟨values', hvalues', hvalue, houter⟩ : ∃ values',
      (if member.kind.isValue then enter tables'.values item.localName (.item member) span
        else .ok tables'.values) = .ok values' ∧
      AgreeOn S { tables with values } { tables' with values := values' } ∧
      AgreeOn (fun name => ¬ S name) tables' { tables' with values := values' } := by
    by_cases hv : member.kind.isValue = true
    · simp only [hv, if_true] at hvalues ⊢
      exact h.enterValue hname hvalues
    · rw [if_neg hv] at hvalues ⊢
      cases hvalues
      exact ⟨_, rfl, h, .refl _ _⟩
  obtain ⟨types', htypes', htype, houter'⟩ : ∃ types',
      (if member.kind.isType then enter tables'.types item.localName (.item member) span
        else .ok tables'.types) = .ok types' ∧
      AgreeOn S { tables with values, types } { tables' with values := values', types := types' } ∧
      AgreeOn (fun name => ¬ S name) { tables' with values := values' }
        { tables' with values := values', types := types' } := by
    by_cases ht : member.kind.isType = true
    · simp only [ht, if_true] at htypes ⊢
      exact hvalue.enterType hname htypes
    · rw [if_neg ht] at htypes ⊢
      cases htypes
      exact ⟨_, rfl, hvalue, .refl _ _⟩
  have hrun' := bindItem_eq_ok.mpr ⟨member, values', types', hmember, hvalues', htypes', rfl⟩
  exact ⟨_, hrun', htype, houter.trans houter'⟩

theorem bindClause_agree (h : AgreeOn S tables tables') {ambient : AmbientModule} {span : Span}
    {clause : Option ImportClause} (hwhole : ∀ name, clause = some (.whole name) → S name)
    (hnamed : ∀ items, clause = some (.named items) → ∀ item ∈ items, S item.localName)
    (hrun : bindClause tables ambient span clause = .ok after) :
    Follows S after tables' (bindClause tables' ambient span clause) := by
  cases clause with
  | none =>
    cases hrun
    exact .refl h
  | some clause =>
    cases clause with
    | whole name =>
      obtain ⟨values, hvalues, hrun⟩ := Lowered.bind_eq_ok.mp hrun
      cases hrun
      obtain ⟨values', hvalues', hvalue, houter⟩ := h.enterValue (hwhole name rfl) hvalues
      exact ⟨_, Lowered.bind_eq_ok.mpr ⟨values', hvalues', rfl⟩, hvalue, houter⟩
    | named items =>
      refine foldlM_simulates (R := fun state state' =>
        AgreeOn S state state' ∧ AgreeOn (fun name => ¬ S name) tables' state') ?_ ⟨h, .refl _ _⟩ hrun
      intro state state' item after hmem hstate hstep
      obtain ⟨after', hstep', hagree, houter⟩ :=
        bindItem_agree hstate.1 (hnamed items rfl item hmem) hstep
      exact ⟨after', hstep', hagree, hstate.2.trans houter⟩

theorem bindImport_agree (h : AgreeOn S tables tables') {decl : ImportDecl} {span : Span}
    (hspecifier : ∀ specifier, decl.specifierText = .ok specifier → S specifier)
    (hwhole : ∀ name, decl.clause = some (.whole name) → S name)
    (hnamed : ∀ items, decl.clause = some (.named items) → ∀ item ∈ items, S item.localName)
    (hrun : bindImport tables (.importDecl span decl) = .ok after) :
    Follows S after tables' (bindImport tables' (.importDecl span decl)) := by
  simp only [bindImport, Lowered.bind_eq_ok] at hrun
  obtain ⟨specifier, htext, hrun⟩ := hrun
  have hmodule := h.module specifier (hspecifier specifier htext)
  unfold Follows
  simp only [bindImport, Lowered.bind_eq_ok]
  cases hfound : tables.module? specifier with
  | none =>
    rw [hfound] at hrun hmodule
    cases hrun
    refine ⟨tables', ⟨specifier, htext, ?_⟩, h, .refl _ _⟩
    rw [hmodule]
    rfl
  | some ambient =>
    rw [hfound] at hrun hmodule
    obtain ⟨after', hstep, hagree, houter⟩ := bindClause_agree h hwhole hnamed hrun
    refine ⟨after', ⟨specifier, htext, ?_⟩, hagree, houter⟩
    rw [hmodule]
    exact hstep

end Entering

end Tables

/-! ## What the tables learn is spared -/

namespace Addition

variable {added : Addition} {tables after : Tables}

theorem classItem_spares {decl : ClassDecl} {span : Span}
    (hdecl : ∀ member ∈ decl.members, added.SparesMember member) {item : Item}
    (h : classItem decl span = .ok item) : added.SparesItem item := by
  unfold classItem at h
  split at h
  · cases h
  · obtain ⟨traits, -, h⟩ := Lowered.bind_eq_ok.mp h
    cases h
    constructor
    · intro field hfield
      obtain ⟨member, hmem, hmember⟩ := List.mem_filterMap.mp hfield
      have hspares := hdecl member hmem
      cases member with
      | property span own =>
        cases hmember
        exact hspares
      | method | constructor => cases hmember
    · intro method hmethod
      obtain ⟨member, hmem, hmember⟩ := List.mem_filterMap.mp hmethod
      have hspares := hdecl member hmem
      cases member with
      | method span own =>
        cases hmember
        exact hspares
      | property | constructor => cases hmember

theorem functionItem_spares {decl : FunctionDecl} {span : Span}
    (hdecl : added.SparesOption decl.returnType) {item : Item}
    (h : functionItem decl span = .ok item) : added.SparesItem item := by
  unfold functionItem at h
  split at h
  · cases h
  · obtain ⟨traits, -, h⟩ := Lowered.bind_eq_ok.mp h
    cases h
    exact hdecl

theorem memberItem_spares {decl : Decl} (hdecl : added.SparesSignature decl) {item : Item}
    (h : memberItem decl = .ok item) : added.SparesItem item := by
  cases decl with
  | classDecl span decl => exact classItem_spares hdecl h
  | functionDecl span decl => exact functionItem_spares hdecl h
  | interfaceDecl | typeAlias =>
    cases h
    trivial
  | importDecl | moduleDecl => cases h

theorem exportDecl_spares {specifier : String} {members after : List (String × Item)} {decl : Decl}
    (hdecl : added.SparesSignature decl)
    (hmembers : ∀ name item, members.lookup name = some item → added.SparesItem item)
    (h : exportDecl specifier members decl = .ok after) :
    ∀ name item, after.lookup name = some item → added.SparesItem item := by
  obtain ⟨own, hown, h⟩ := Lowered.bind_eq_ok.mp h
  split at h
  · cases h
    intro name item hitem
    rcases lookup_cons_cases hitem with ⟨-, rfl⟩ | hitem
    · exact memberItem_spares hdecl hown
    · exact hmembers name item hitem
  · split at h
    · cases h
      exact hmembers
    · cases h

theorem ambientModule_spares {span : Span} {decorators : List Decorator} {specifier : String}
    {body : List Decl} (hspecifier : added.Spares specifier)
    (hbody : ∀ member ∈ body, added.SparesSignature member) {ambient : AmbientModule}
    (h : ambientModule span decorators specifier body = .ok ambient) :
    added.SparesModule ambient := by
  simp only [ambientModule, Lowered.bind_eq_ok, Lowered.pure_eq_ok] at h
  obtain ⟨traits, -, members, hmembers, rfl⟩ := h
  have hspares : ∀ name item, members.lookup name = some item → added.SparesItem item :=
    foldlM_keeps (fun _ decl _ hmem hkept hstep => exportDecl_spares (hbody decl hmem) hkept hstep)
      (fun _ _ hitem => by cases hitem) hmembers
  exact ⟨hspecifier, hspares⟩

namespace SparesNames

theorem empty : added.SparesNames (Tables.names {}) := by
  refine ⟨?_, ?_, ?_⟩ <;> intro name known hknown <;> cases hknown

theorem enterValue (h : added.SparesNames tables.names) {name : String} {symbol : Symbol}
    {span : Span} {values : List (String × Symbol)}
    (hrun : enter tables.values name symbol span = .ok values) (hname : added.Spares name)
    (hsymbol : added.SparesSymbol symbol) :
    added.SparesNames (Tables.names { tables with values }) := by
  obtain ⟨-, rfl⟩ := enter_eq_ok.mp hrun
  refine ⟨?_, h.type, h.module⟩
  intro other found hfound
  rcases lookup_cons_cases hfound with ⟨rfl, rfl⟩ | hfound
  · exact ⟨hname, hsymbol⟩
  · exact h.value other found hfound

theorem enterType (h : added.SparesNames tables.names) {name : String} {symbol : Symbol}
    {span : Span} {types : List (String × Symbol)}
    (hrun : enter tables.types name symbol span = .ok types) (hname : added.Spares name)
    (hsymbol : added.SparesSymbol symbol) :
    added.SparesNames (Tables.names { tables with types }) := by
  obtain ⟨-, rfl⟩ := enter_eq_ok.mp hrun
  refine ⟨h.value, ?_, h.module⟩
  intro other found hfound
  rcases lookup_cons_cases hfound with ⟨rfl, rfl⟩ | hfound
  · exact ⟨hname, hsymbol⟩
  · exact h.type other found hfound

theorem declare (h : added.SparesNames tables.names) {decl : Decl} (hdecl : added.SparesDecl decl)
    (hrun : Tables.declare tables decl = .ok after) : added.SparesNames after.names := by
  cases Tables.declare_eq_ok.mp hrun with
  | importDecl | overload => exact h
  | classDecl hitem hvalues htypes =>
    have hname : added.Spares _ := hdecl.1 _ (classItem_name hitem)
    have hspares := classItem_spares hdecl.2 hitem
    exact (h.enterValue hvalues hname hspares).enterType htypes hname hspares
  | functionDecl hitem hfirst hvalues =>
    have hname : added.Spares _ := hdecl.1 _ (functionItem_name hitem)
    exact h.enterValue hvalues hname (functionItem_spares hdecl.2 hitem)
  | interfaceDecl htypes | typeAlias htypes => exact h.enterType htypes (hdecl.1 _ rfl) trivial
  | moduleDecl hnew hambient =>
    refine ⟨h.value, h.type, ?_⟩
    intro other found hfound
    rcases lookup_cons_cases hfound with ⟨rfl, rfl⟩ | hfound
    · exact ⟨hdecl.1, ambientModule_spares hdecl.1 hdecl.2 hambient⟩
    · exact h.module other found hfound

theorem bindItem (h : added.SparesNames tables.names) {ambient : AmbientModule}
    (hambient : added.SparesModule ambient) {span : Span} {item : ImportItem}
    (hname : added.Spares item.localName)
    (hrun : Tables.bindItem ambient span tables item = .ok after) :
    added.SparesNames after.names := by
  obtain ⟨member, values, types, hmember, hvalues, htypes, rfl⟩ := Tables.bindItem_cases hrun
  have hspares : added.SparesItem member := hambient.members item.name member hmember
  have hvalue : added.SparesNames (Tables.names { tables with values }) := by
    rcases hvalues with hvalues | rfl
    · exact h.enterValue hvalues hname hspares
    · exact h
  rcases htypes with htypes | rfl
  · exact hvalue.enterType htypes hname hspares
  · exact hvalue

theorem bindImport (h : added.SparesNames tables.names) {decl : Decl}
    (hdecl : added.SparesDecl decl) (hrun : Tables.bindImport tables decl = .ok after) :
    added.SparesNames after.names := by
  cases decl with
  | importDecl span decl =>
    simp only [Tables.bindImport, Lowered.bind_eq_ok] at hrun
    obtain ⟨specifier, -, hrun⟩ := hrun
    split at hrun
    · cases hrun
      exact h
    · rename_i ambient hfound
      have hambient := (h.module specifier ambient hfound).2
      unfold Tables.bindClause at hrun
      split at hrun
      · cases hrun
        exact h
      · rename_i name hclause
        obtain ⟨values, hvalues, hrun⟩ := Lowered.bind_eq_ok.mp hrun
        cases hrun
        exact h.enterValue hvalues (hdecl.2 _ hclause) hambient
      · rename_i items hclause
        have hitems : ∀ item ∈ items, added.Spares item.localName := hdecl.2 _ hclause
        have hkeeps (state : Tables) (item : ImportItem) (next : Tables) (hmem : item ∈ items)
            (hkept : added.SparesNames state.names)
            (hstep : Tables.bindItem ambient decl.specifier.span state item = .ok next) :
            added.SparesNames next.names := hkept.bindItem hambient (hitems item hmem) hstep
        exact foldlM_keeps hkeeps h hrun
  | _ =>
    cases hrun
    exact h

end SparesNames

/-! ## The extended tables -/

namespace Extended

variable {tables' : Tables}

theorem agreeOn (h : added.Extended tables.names tables'.names) :
    Tables.AgreeOn added.Spares tables tables' :=
  ⟨h.value, h.type, h.module⟩

/-- A step that both models take keeps them apart by the addition. -/
theorem follow (h : added.Extended tables.names tables'.names)
    (hspares : added.SparesNames after.names) (hproper : after.names.Proper) {step : Lowered Tables}
    (hstep : Tables.Follows added.Spares after tables' step) :
    ∃ after', step = .ok after' ∧ added.Extended after.names after'.names := by
  obtain ⟨after', hrun, hagree, houter⟩ := hstep
  refine ⟨after', hrun, hspares, hproper, hagree.value, hagree.type, hagree.module, ?_⟩
  intro name symbol hname hsymbol
  exact h.items name symbol hname ((houter.value name hname).symm.trans hsymbol)

theorem declare (h : added.Extended tables.names tables'.names) {decl : Decl}
    (hdecl : added.SparesDecl decl) (hrun : Tables.declare tables decl = .ok after) :
    ∃ after', Tables.declare tables' decl = .ok after' ∧
      added.Extended after.names after'.names := by
  have hname : ∀ name, decl.name? = some name → added.Spares name := by
    cases decl with
    | importDecl span decl =>
      intro name hname
      cases hname
    | moduleDecl span decorators declared specifier body =>
      intro name hname
      cases hname
      exact hdecl.1
    | _ => exact hdecl.1
  exact h.follow (h.spares.declare hdecl hrun) (Tables.declare_proper h.proper hrun)
    (Tables.declare_agree h.agreeOn hname hrun)

theorem bindImport (h : added.Extended tables.names tables'.names) {decl : Decl}
    (hdecl : added.SparesDecl decl) (hrun : Tables.bindImport tables decl = .ok after) :
    ∃ after', Tables.bindImport tables' decl = .ok after' ∧
      added.Extended after.names after'.names := by
  cases decl with
  | importDecl span decl =>
    refine h.follow (h.spares.bindImport hdecl hrun) (Tables.bindImport_proper h.proper hrun) ?_
    refine Tables.bindImport_agree h.agreeOn hdecl.1 ?_ ?_ hrun
    · exact fun name hclause => hdecl.2 _ hclause
    · exact fun items hclause => hdecl.2 _ hclause
  | _ =>
    cases hrun
    exact ⟨tables', rfl, h⟩

end Extended

/-! ### The declarations of the addition -/

/-- The values that tables know are items, and the functions among them are among the new
functions. -/
def OnlyItems (added : Addition) (tables : Tables) : Prop :=
  ∀ name symbol, tables.resolve? name = some symbol →
    ∃ item, symbol = .item item ∧ (item.function?.isSome → name ∈ added.functions)

theorem OnlyItems.empty : added.OnlyItems {} := by
  intro name symbol hknown
  cases hknown

theorem OnlyItems.enterValue (h : added.OnlyItems tables) {item : Item} {span : Span}
    {values : List (String × Symbol)}
    (hrun : enter tables.values item.name (.item item) span = .ok values)
    (hitem : item.function?.isSome → item.name ∈ added.functions) :
    added.OnlyItems { tables with values } := by
  obtain ⟨-, rfl⟩ := enter_eq_ok.mp hrun
  intro other found hfound
  rcases lookup_cons_cases hfound with ⟨rfl, rfl⟩ | hfound
  · exact ⟨item, rfl, hitem⟩
  · exact h other found hfound

theorem OnlyItems.declare (h : added.OnlyItems tables) {decl : Decl}
    (hdecl : ∀ name, decl.functionName? = some name → name ∈ added.functions)
    (hrun : Tables.declare tables decl = .ok after) : added.OnlyItems after := by
  cases Tables.declare_eq_ok.mp hrun with
  | importDecl | overload | interfaceDecl | typeAlias | moduleDecl => exact h
  | @classDecl _ _ item _ _ hitem hvalues htypes =>
    have hkind : item.function? = none := by
      unfold classItem at hitem
      split at hitem
      · cases hitem
      · obtain ⟨traits, -, hitem⟩ := Lowered.bind_eq_ok.mp hitem
        cases hitem
        rfl
    exact h.enterValue hvalues (by simp [hkind])
  | functionDecl hitem hfirst hvalues =>
    exact h.enterValue hvalues fun _ => hdecl _ (functionItem_name hitem)

/-- Where entering the declarations of the addition has got to, in the empty tables and in another
one: the second knows the same of the new names as the first, and of the others what it knew. -/
structure Entering (added : Addition) (tables alone grown : Tables) : Prop where
  new : Tables.AgreeOn (fun name => ¬ added.Spares name) alone grown
  items : added.OnlyItems alone
  old : Tables.AgreeOn added.Spares tables grown

theorem Entering.start (hspares : added.SparesNames tables.names) : Entering added tables
    {} tables := by
  refine ⟨⟨?_, ?_, ?_⟩, .empty, .refl _ _⟩
  · intro name hname
    cases hknown : tables.resolve? name with
    | none => rfl
    | some symbol => exact absurd (hspares.value name symbol hknown).1 hname
  · intro name hname
    cases hknown : tables.resolveType? name with
    | none => rfl
    | some item => exact absurd (hspares.type name item hknown).1 hname
  · intro name hname
    cases hknown : tables.module? name with
    | none => rfl
    | some ambient => exact absurd (hspares.module name ambient hknown).1 hname

theorem Entering.declare {alone grown : Tables} (h : Entering added tables alone grown)
    {decl : Decl} (hname : ∀ name, decl.name? = some name → ¬ added.Spares name)
    (hfunction : ∀ name, decl.functionName? = some name → name ∈ added.functions)
    (hrun : Tables.declare alone decl = .ok after) :
    ∃ after', Tables.declare grown decl = .ok after' ∧ Entering added tables after after' := by
  obtain ⟨after', hrun', hnew, houter⟩ := Tables.declare_agree h.new hname hrun
  have hold : Tables.AgreeOn added.Spares grown after' := houter.imp fun name => not_not.mpr
  exact ⟨after', hrun', hnew, h.items.declare hfunction hrun, h.old.trans hold⟩

theorem Entering.extended {alone grown : Tables} (h : Entering added tables alone grown)
    (hspares : added.SparesNames tables.names) (hproper : tables.names.Proper) :
    added.Extended tables.names grown.names := by
  refine ⟨hspares, hproper, h.old.value, h.old.type, h.old.module, ?_⟩
  intro name symbol hname hsymbol
  exact h.items name symbol ((h.new.value name hname).symm.trans hsymbol)

/-- The declarations of a prelude that has tables of its own can be entered into any tables that
know none of their names, and these are then extended by them. -/
theorem declareAll_extended {decls : List Decl} {alone : Tables}
    (halone : decls.foldlM Tables.declare {} = .ok alone)
    (hspares : (ofDecls decls).SparesNames tables.names) (hproper : tables.names.Proper) :
    ∃ tables', decls.foldlM Tables.declare tables = .ok tables' ∧
      (ofDecls decls).Extended tables.names tables'.names := by
  have hstep : ∀ state state' decl after, decl ∈ decls →
      Entering (ofDecls decls) tables state state' → Tables.declare state decl = .ok after →
      ∃ after', Tables.declare state' decl = .ok after' ∧
        Entering (ofDecls decls) tables after after' := by
    intro state state' decl after hmem hstate hrun
    refine hstate.declare ?_ ?_ hrun
    · intro name hname hspared
      exact hspared (List.mem_filterMap.mpr ⟨decl, hmem, hname⟩)
    · intro name hname
      exact List.mem_filterMap.mpr ⟨decl, hmem, hname⟩
  obtain ⟨tables', hrun, hentered⟩ := foldlM_simulates hstep (.start hspares) halone
  exact ⟨tables', hrun, hentered.extended hspares hproper⟩

end Addition

/-! ## Building -/

open Addition (ofDecls)

theorem foldlM_bindImport_eq {decls : List Decl}
    (h : ∀ span decl, Decl.importDecl span decl ∉ decls) (tables : Tables) :
    decls.foldlM Tables.bindImport tables = .ok tables := by
  induction decls with
  | nil => rfl
  | cons first rest ih =>
    have hfirst : Tables.bindImport tables first = .ok tables := by
      cases first with
      | importDecl span decl => exact absurd (by simp) (h span decl)
      | _ => rfl
    rw [List.foldlM_cons, hfirst]
    exact ih fun span decl hmem => h span decl (by simp [hmem])

/-- A round over declarations that spare the prelude keeps tables extended by it. -/
theorem round_extended {added : Addition} {step : Tables → Decl → Lowered Tables}
    {decls : List Decl}
    (hstep : ∀ {state state' after : Tables} {decl : Decl}, added.Extended state.names state'.names →
      added.SparesDecl decl → step state decl = .ok after →
      ∃ after', step state' decl = .ok after' ∧ added.Extended after.names after'.names)
    (hdecls : ∀ decl ∈ decls, added.SparesDecl decl) {tables tables' after : Tables}
    (h : added.Extended tables.names tables'.names) (hrun : decls.foldlM step tables = .ok after) :
    ∃ after', decls.foldlM step tables' = .ok after' ∧
      added.Extended after.names after'.names := by
  have hround (state state' : Tables) (decl : Decl) (next : Tables) (hmem : decl ∈ decls)
      (hstate : added.Extended state.names state'.names) (hnext : step state decl = .ok next) :
      ∃ next', step state' decl = .ok next' ∧ added.Extended next.names next'.names :=
    hstep hstate (hdecls decl hmem) hnext
  exact foldlM_simulates hround h hrun

/-- Sources that have a model still have one if a prelude is added whose names they spare: the
model is extended by the prelude. -/
theorem build_extended {program extra : Program} {before behind : List Program}
    {model alone : TypedModel} (hmodel : Model.build program (before ++ behind) = .ok model)
    (halone : Model.build extra [] = .ok alone)
    (himports : ∀ span decl, Decl.importDecl span decl ∉ extra.decls)
    (hspares : ∀ decl ∈ Model.sources program (before ++ behind),
      (ofDecls extra.decls).SparesDecl decl) :
    ∃ model', Model.build program (before ++ extra :: behind) = .ok model' ∧
      (ofDecls extra.decls).Extended model model' := by
  let added := ofDecls extra.decls
  let front := before.flatMap Program.decls
  let back := Model.sources program behind
  have hsources : Model.sources program (before ++ behind) = front ++ back := by
    simp [Model.sources, front, back]
  have hextended : Model.sources program (before ++ extra :: behind)
      = front ++ (extra.decls ++ back) := by
    simp [Model.sources, front, back]
  rw [hsources] at hspares
  have hfront : ∀ decl ∈ front, added.SparesDecl decl := fun decl hmem =>
    hspares decl (List.mem_append.mpr (.inl hmem))
  have hback : ∀ decl ∈ back, added.SparesDecl decl := fun decl hmem =>
    hspares decl (List.mem_append.mpr (.inr hmem))
  obtain ⟨tables, htables, rfl⟩ := Model.build_eq_ok.mp hmodel
  obtain ⟨declared, hdeclared, hbound⟩ := Lowered.bind_eq_ok.mp htables
  rw [hsources, List.foldlM_append, Lowered.bind_eq_ok] at hdeclared hbound
  obtain ⟨first, hfirst, hdeclared⟩ := hdeclared
  obtain ⟨second, hsecond, hbound⟩ := hbound
  obtain ⟨single, hsingle, -⟩ := Model.build_eq_ok.mp halone
  obtain ⟨own, hown, -⟩ := Lowered.bind_eq_ok.mp hsingle
  -- The first round: what stands before the prelude, the prelude, and what stands behind it.
  have hspared : added.SparesNames first.names :=
    foldlM_keeps (fun _ decl _ hmem hkept hstep =>
      Addition.SparesNames.declare hkept (hfront decl hmem) hstep) .empty hfirst
  have hproper : first.names.Proper :=
    foldlM_keeps (fun _ _ _ _ hkept hstep => Tables.declare_proper hkept hstep) .empty hfirst
  have hextra : Model.sources extra [] = extra.decls := by simp [Model.sources]
  rw [hextra] at hown
  obtain ⟨first', hentered, hstart⟩ := Addition.declareAll_extended hown hspared hproper
  obtain ⟨declared', hdeclared', hround⟩ :=
    round_extended (fun hstate => hstate.declare) hback hstart hdeclared
  -- The second round: the prelude has no imports.
  obtain ⟨second', hsecond', hmiddle⟩ :=
    round_extended (fun hstate => hstate.bindImport) hfront hround hsecond
  obtain ⟨tables', hbound', hend⟩ :=
    round_extended (fun hstate => hstate.bindImport) hback hmiddle hbound
  refine ⟨tables'.names.model, Model.build_eq_ok.mpr ⟨tables', ?_, rfl⟩, hend⟩
  refine Lowered.bind_eq_ok.mpr ⟨declared', ?_, ?_⟩
  · rw [hextended, List.foldlM_append, Lowered.bind_eq_ok]
    refine ⟨first, hfirst, ?_⟩
    rw [List.foldlM_append, Lowered.bind_eq_ok]
    exact ⟨first', hentered, hdeclared'⟩
  · rw [hextended, List.foldlM_append, Lowered.bind_eq_ok]
    refine ⟨second', hsecond', ?_⟩
    rw [List.foldlM_append, foldlM_bindImport_eq himports]
    exact hbound'

end NativeLowering
