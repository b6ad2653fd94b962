import NativeLowering.Proofs.Model.Tables

/-!
# What building a model leaves in it

Entering a name never replaces an earlier one, so what a name stands for once it is entered it
stands for in the end (`Extends`). Every class of a source is found under its name
(`build_class`), and a function is a built-in only under the built-in's name (`build_builtin`).
-/

set_option autoImplicit false

namespace NativeLowering

open Vocabulary (Builtin)

/-! ## Names of built-ins -/

/-- A built-in has no other spelling. -/
theorem Vocabulary.Builtin.eq_spelling {name : String} {builtin : Builtin}
    (h : Builtin.ofString? name = some builtin) : name = builtin.spelling := by
  obtain ⟨entry, hentry, rfl⟩ := Option.map_eq_some_iff.mp h
  unfold Entry.find? at hentry
  have haccepts := List.find?_some hentry
  have hrow : ∀ row ∈ Builtin.table, row.aliases = [] ∧ row.canonical = row.item.spelling := by
    decide
  obtain ⟨haliases, hcanonical⟩ := hrow entry (List.mem_of_find?_eq_some hentry)
  simp only [Vocabulary.Entry.accepts, haliases, hcanonical, List.contains_nil, Bool.or_false,
    beq_iff_eq] at haccepts
  exact haccepts.symm

/-! ## Tables and rounds -/

theorem enter_eq_ok {α : Type} {table entered : List (String × α)} {name : String} {value : α}
    {span : Span} :
    enter table name value span = .ok entered ↔
      table.lookup name = none ∧ entered = (name, value) :: table := by
  unfold enter
  cases table.lookup name with
  | none => simp [eq_comm]
  | some found =>
    constructor
    · intro h
      cases h
    · rintro ⟨h, -⟩
      cases h

theorem lookup_enter {α : Type} {table : List (String × α)} {name other : String} {value found : α}
    (hnew : table.lookup name = none) (h : table.lookup other = some found) :
    ((name, value) :: table).lookup other = some found := by
  have hne : (other == name) = false := by
    refine beq_false_of_ne ?_
    rintro rfl
    rw [hnew] at h
    cases h
  rw [List.lookup_cons, hne]
  exact h

section Rounds

variable {σ δ : Type} {step : σ → δ → Lowered σ}

/-- What every step keeps, a round keeps. -/
theorem foldlM_keeps {Keeps : σ → Prop} {items : List δ}
    (hstep : ∀ state item after, item ∈ items → Keeps state → step state item = .ok after →
      Keeps after)
    {state after : σ} (h : Keeps state) (hrun : items.foldlM step state = .ok after) :
    Keeps after := by
  induction items generalizing state with
  | nil =>
    obtain rfl := Lowered.pure_eq_ok.mp hrun
    exact h
  | cons item rest ih =>
    rw [List.foldlM_cons, Lowered.bind_eq_ok] at hrun
    obtain ⟨between, hitem, hrest⟩ := hrun
    have hbetween := hstep state item between (by simp) h hitem
    exact ih (fun _ other _ hmem => hstep _ other _ (by simp [hmem])) hbetween hrest

/-- Every item of a round is entered at some point of it. -/
theorem foldlM_mem {item : δ} : ∀ {items : List δ} {state after : σ},
    items.foldlM step state = .ok after → item ∈ items →
    ∃ before between later, step before item = .ok between ∧
      List.foldlM step between later = .ok after
  | [], _, _, _, hmem => nomatch hmem
  | first :: rest, state, after, hrun, hmem => by
    rw [List.foldlM_cons, Lowered.bind_eq_ok] at hrun
    obtain ⟨between, hfirst, hrest⟩ := hrun
    rcases List.mem_cons.mp hmem with rfl | hmem
    · exact ⟨state, between, rest, hfirst, hrest⟩
    · exact foldlM_mem hrest hmem

end Rounds

theorem Symbol.item?_eq_some {symbol : Symbol} {item : Item} :
    symbol.item? = some item ↔ symbol = .item item := by
  cases symbol <;> simp [Symbol.item?]

theorem Names.class?_eq_some {names : Names} {name : String} {item : Item} {info : ClassInfo} :
    names.class? name = some (item, info) ↔
      names.resolveType? name = some (.item item) ∧ item.class? = some info := by
  unfold Names.class?
  constructor
  · intro h
    obtain ⟨symbol, hsymbol, h⟩ := Option.bind_eq_some_iff.mp h
    obtain ⟨found, hfound, h⟩ := Option.bind_eq_some_iff.mp h
    obtain ⟨found', hinfo, h⟩ := Option.bind_eq_some_iff.mp h
    cases h
    exact ⟨Symbol.item?_eq_some.mp hfound ▸ hsymbol, hinfo⟩
  · rintro ⟨hitem, hinfo⟩
    simp [hitem, hinfo, Symbol.item?]

namespace Tables

/-! ## What the first round does with a declaration -/

/-- What becomes of tables when a declaration is entered: what is kept in the first round is kept by
each of these steps. -/
inductive Declares (tables : Tables) : Decl → Tables → Prop where
  | importDecl (span : Span) (decl : ImportDecl) : Declares tables (.importDecl span decl) tables
  | classDecl {span : Span} {decl : ClassDecl} {item : Item} {values : List (String × Symbol)}
      {types : List (String × Symbol)} (hitem : classItem decl span = .ok item)
      (hvalues : enter tables.values item.name (.item item) span = .ok values)
      (htypes : enter tables.types item.name (.item item) span = .ok types) :
      Declares tables (.classDecl span decl) { tables with values, types }
  /-- A declared function of a known name is passed over. -/
  | overload {span : Span} {decl : FunctionDecl} {item : Item}
      (hitem : functionItem decl span = .ok item)
      (hoverload : tables.names.isOverload item = true) :
      Declares tables (.functionDecl span decl) tables
  | functionDecl {span : Span} {decl : FunctionDecl} {item : Item} {values : List (String × Symbol)}
      (hitem : functionItem decl span = .ok item) (hfirst : tables.names.isOverload item = false)
      (hvalues : enter tables.values item.name (.item item) span = .ok values) :
      Declares tables (.functionDecl span decl) { tables with values }
  | interfaceDecl {span : Span} {decl : InterfaceDecl} {types : List (String × Symbol)}
      (htypes : enter tables.types decl.name (.item (interfaceItem decl span)) span = .ok types) :
      Declares tables (.interfaceDecl span decl) { tables with types }
  | typeAlias {span : Span} {name : String} {types : List (String × Symbol)}
      (htypes : enter tables.types name (.item (aliasItem name span)) span = .ok types) :
      Declares tables (.typeAlias span name) { tables with types }
  | moduleDecl {span : Span} {decorators : List Decorator} {declared : Bool} {specifier : String}
      {body : List Decl} {ambient : AmbientModule} (hnew : tables.module? specifier = none)
      (hambient : ambientModule span decorators specifier body = .ok ambient) :
      Declares tables (.moduleDecl span decorators declared specifier body)
        { tables with modules := (specifier, ambient) :: tables.modules }

theorem declares_of_eq_ok {tables after : Tables} {decl : Decl}
    (h : declare tables decl = .ok after) : Declares tables decl after := by
  cases decl with
  | importDecl span decl =>
    cases h
    exact .importDecl span decl
  | classDecl span decl =>
    simp only [declare, Lowered.bind_eq_ok, Lowered.pure_eq_ok] at h
    obtain ⟨item, hitem, values, hvalues, types, htypes, rfl⟩ := h
    exact .classDecl hitem hvalues htypes
  | functionDecl span decl =>
    simp only [declare, Lowered.bind_eq_ok] at h
    obtain ⟨item, hitem, h⟩ := h
    cases hoverload : tables.names.isOverload item with
    | true =>
      rw [hoverload, if_pos rfl] at h
      cases h
      exact .overload hitem hoverload
    | false =>
      rw [hoverload, if_neg Bool.false_ne_true] at h
      obtain ⟨values, hvalues, h⟩ := Lowered.bind_eq_ok.mp h
      cases h
      exact .functionDecl hitem hoverload hvalues
  | interfaceDecl span decl =>
    obtain ⟨types, htypes, h⟩ := Lowered.bind_eq_ok.mp h
    cases h
    exact .interfaceDecl htypes
  | typeAlias span name =>
    obtain ⟨types, htypes, h⟩ := Lowered.bind_eq_ok.mp h
    cases h
    exact .typeAlias htypes
  | moduleDecl span decorators declared specifier body =>
    simp only [declare] at h
    cases hknown : tables.module? specifier with
    | some found =>
      rw [hknown, Option.isSome_some, if_pos rfl] at h
      cases h
    | none =>
      rw [hknown, Option.isSome_none, if_neg Bool.false_ne_true] at h
      obtain ⟨ambient, hambient, h⟩ := Lowered.bind_eq_ok.mp h
      cases h
      exact .moduleDecl hknown hambient

theorem Declares.eq_ok {tables after : Tables} {decl : Decl} (h : Declares tables decl after) :
    declare tables decl = .ok after := by
  cases h with
  | importDecl => rfl
  | classDecl hitem hvalues htypes =>
    simp only [declare, Lowered.bind_eq_ok, Lowered.pure_eq_ok]
    exact ⟨_, hitem, _, hvalues, _, htypes, rfl⟩
  | overload hitem hoverload =>
    refine Lowered.bind_eq_ok.mpr ⟨_, hitem, ?_⟩
    rw [hoverload, if_pos rfl]
    rfl
  | functionDecl hitem hfirst hvalues =>
    refine Lowered.bind_eq_ok.mpr ⟨_, hitem, ?_⟩
    rw [hfirst, if_neg Bool.false_ne_true]
    exact Lowered.bind_eq_ok.mpr ⟨_, hvalues, rfl⟩
  | interfaceDecl htypes | typeAlias htypes => exact Lowered.bind_eq_ok.mpr ⟨_, htypes, rfl⟩
  | moduleDecl hnew hambient =>
    rw [declare, hnew, Option.isSome_none, if_neg Bool.false_ne_true]
    exact Lowered.bind_eq_ok.mpr ⟨_, hambient, rfl⟩

theorem declare_eq_ok {tables after : Tables} {decl : Decl} :
    declare tables decl = .ok after ↔ Declares tables decl after :=
  ⟨declares_of_eq_ok, Declares.eq_ok⟩

/-! ## Names keep what they stand for -/

/-- What names stand for in the first tables, they stand for in the second. -/
structure Extends (before after : Tables) : Prop where
  value : ∀ name symbol, before.resolve? name = some symbol → after.resolve? name = some symbol
  type : ∀ name symbol, before.resolveType? name = some symbol →
    after.resolveType? name = some symbol

theorem Extends.refl (tables : Tables) : Extends tables tables := ⟨fun _ _ h => h, fun _ _ h => h⟩

theorem Extends.trans {first second third : Tables} (h : Extends first second)
    (h' : Extends second third) : Extends first third :=
  ⟨fun name symbol hs => h'.value name symbol (h.value name symbol hs),
    fun name item hi => h'.type name item (h.type name item hi)⟩

section Steps

variable {tables after : Tables}

theorem Extends.enterValue {name : String} {symbol : Symbol} {span : Span}
    {values : List (String × Symbol)} (h : enter tables.values name symbol span = .ok values) :
    Extends tables { tables with values } := by
  obtain ⟨hnew, rfl⟩ := enter_eq_ok.mp h
  exact ⟨fun _ _ hs => lookup_enter hnew hs, fun _ _ hi => hi⟩

theorem Extends.enterType {name : String} {symbol : Symbol} {span : Span}
    {types : List (String × Symbol)} (h : enter tables.types name symbol span = .ok types) :
    Extends tables { tables with types } := by
  obtain ⟨hnew, rfl⟩ := enter_eq_ok.mp h
  exact ⟨fun _ _ hs => hs, fun _ _ hi => lookup_enter hnew hi⟩

theorem declare_extends {decl : Decl} (h : declare tables decl = .ok after) :
    Extends tables after := by
  cases declare_eq_ok.mp h with
  | importDecl | overload => exact .refl _
  | classDecl hitem hvalues htypes => exact (Extends.enterValue hvalues).trans (.enterType htypes)
  | functionDecl hitem hfirst hvalues => exact .enterValue hvalues
  | interfaceDecl htypes | typeAlias htypes => exact .enterType htypes
  | moduleDecl => exact ⟨fun _ _ hs => hs, fun _ _ hi => hi⟩

/-- Binding one name of an import enters the exported item in each name space it lives in. -/
theorem bindItem_eq_ok {ambient : AmbientModule} {span : Span} {item : ImportItem} :
    bindItem ambient span tables item = .ok after ↔
      ∃ member values types, ambient.member? item.name = some member ∧
        (if member.kind.isValue then enter tables.values item.localName (.item member) span
          else .ok tables.values) = .ok values ∧
        (if member.kind.isType then enter tables.types item.localName (.item member) span
          else .ok tables.types) = .ok types ∧
        after = { tables with values, types } := by
  unfold bindItem
  cases ambient.member? item.name with
  | none => simp [failAt]
  | some member =>
    cases hv : member.kind.isValue <;> cases ht : member.kind.isType <;>
      simp [-bind_pure_comp, -Except.ok.injEq, hv, ht, Lowered.bind_eq_ok, Lowered.pure_eq_ok]

/-- What binding one name of an import can do: enter the exported item in either name space. -/
theorem bindItem_cases {ambient : AmbientModule} {span : Span} {item : ImportItem}
    (h : bindItem ambient span tables item = .ok after) :
    ∃ member values types, ambient.member? item.name = some member ∧
      (enter tables.values item.localName (.item member) span = .ok values ∨
        values = tables.values) ∧
      (enter tables.types item.localName (.item member) span = .ok types ∨ types = tables.types) ∧
      after = { tables with values, types } := by
  obtain ⟨member, values, types, hmember, hvalues, htypes, hafter⟩ := bindItem_eq_ok.mp h
  refine ⟨member, values, types, hmember, ?_, ?_, hafter⟩
  · split at hvalues
    · exact .inl hvalues
    · cases hvalues
      exact .inr rfl
  · split at htypes
    · exact .inl htypes
    · cases htypes
      exact .inr rfl

theorem bindItem_extends {ambient : AmbientModule} {span : Span} {item : ImportItem}
    (h : bindItem ambient span tables item = .ok after) : Extends tables after := by
  obtain ⟨member, values, types, -, hvalues, htypes, rfl⟩ := bindItem_cases h
  have hvalue : Extends tables { tables with values } := by
    rcases hvalues with hvalues | rfl
    · exact .enterValue hvalues
    · exact .refl _
  have htype : Extends { tables with values } { tables with values, types } := by
    rcases htypes with htypes | rfl
    · exact .enterType htypes
    · exact .refl _
  exact hvalue.trans htype

theorem bindImport_extends {decl : Decl} (h : bindImport tables decl = .ok after) :
    Extends tables after := by
  cases decl with
  | importDecl span decl =>
    simp only [bindImport, Lowered.bind_eq_ok] at h
    obtain ⟨specifier, -, h⟩ := h
    split at h
    · cases h
      exact .refl _
    · rename_i ambient _
      unfold bindClause at h
      split at h
      · cases h
        exact .refl _
      · obtain ⟨values, hvalues, h⟩ := Lowered.bind_eq_ok.mp h
        cases h
        exact .enterValue hvalues
      · exact foldlM_keeps (fun _ _ _ _ hext hitem => hext.trans (bindItem_extends hitem))
          (Extends.refl tables) h
  | _ =>
    cases h
    exact .refl _

end Steps

end Tables

/-- A class of the program is found under its name. -/
theorem Model.build_class {program : Program} {preludes : List Program} {model : TypedModel}
    (h : build program preludes = .ok model) {span : Span} {decl : ClassDecl}
    (hdecl : .classDecl span decl ∈ program.decls) :
    ∃ item, classItem decl span = .ok item ∧
      model.resolveType? item.name = some (.item item) := by
  have hsource : Decl.classDecl span decl ∈ sources program preludes := by
    simp only [sources, List.mem_flatMap, List.mem_append, List.mem_singleton]
    exact ⟨program, .inr rfl, hdecl⟩
  obtain ⟨tables, hbuild, rfl⟩ := build_eq_ok.mp h
  obtain ⟨declared, hdeclared, hbound⟩ := Lowered.bind_eq_ok.mp hbuild
  obtain ⟨before, between, later, hstep, hlater⟩ := foldlM_mem hdeclared hsource
  have hround : Tables.Extends between declared :=
    foldlM_keeps (fun _ _ _ _ hext hitem => hext.trans (Tables.declare_extends hitem)) (.refl _)
      hlater
  have himports : Tables.Extends declared tables :=
    foldlM_keeps (fun _ _ _ _ hext hitem => hext.trans (Tables.bindImport_extends hitem)) (.refl _)
      hbound
  cases Tables.declare_eq_ok.mp hstep with
  | classDecl hitem hvalues htypes =>
    refine ⟨_, hitem, (hround.trans himports).type _ _ ?_⟩
    obtain ⟨-, rfl⟩ := enter_eq_ok.mp htypes
    exact List.lookup_cons_self

/-! ## Items have the names of their declarations -/

theorem classItem_name {decl : ClassDecl} {span : Span} {item : Item}
    (h : classItem decl span = .ok item) : decl.name = some item.name := by
  unfold classItem at h
  split at h
  · cases h
  · rename_i name hname
    obtain ⟨traits, -, h⟩ := Lowered.bind_eq_ok.mp h
    cases h
    exact hname

theorem functionItem_name {decl : FunctionDecl} {span : Span} {item : Item}
    (h : functionItem decl span = .ok item) : decl.name = some item.name := by
  unfold functionItem at h
  split at h
  · cases h
  · rename_i name hname
    obtain ⟨traits, -, h⟩ := Lowered.bind_eq_ok.mp h
    cases h
    exact hname

/-! ## Built-ins have their names -/

/-- A built-in function has the name of the built-in. -/
def Item.Proper (item : Item) : Prop :=
  ∀ info builtin, item.function? = some info → info.builtin = some builtin →
    Builtin.ofString? item.name = some builtin

def Symbol.Proper : Symbol → Prop
  | .item own => own.Proper
  | .ambient _ => True

/-- Every item that names stand for is proper, and every item in a module. -/
structure Names.Proper (names : Names) : Prop where
  value : ∀ name symbol, names.resolve? name = some symbol → symbol.Proper
  exported : ∀ specifier ambient, names.module? specifier = some ambient →
    ∀ name item, ambient.member? name = some item → item.Proper

theorem lookup_cons_cases {α : Type} {table : List (String × α)} {name other : String}
    {value found : α} (h : ((name, value) :: table).lookup other = some found) :
    (other = name ∧ found = value) ∨ table.lookup other = some found := by
  rw [List.lookup_cons] at h
  split at h
  · rename_i heq
    exact .inl ⟨eq_of_beq heq, (Option.some.inj h).symm⟩
  · exact .inr h

theorem Item.Proper.of_function? {item : Item} (h : item.function? = none) : item.Proper := by
  intro info builtin hinfo
  rw [h] at hinfo
  cases hinfo

theorem classItem_proper {decl : ClassDecl} {span : Span} {item : Item}
    (h : classItem decl span = .ok item) : item.Proper := by
  unfold classItem at h
  split at h
  · cases h
  · obtain ⟨traits, -, h⟩ := Lowered.bind_eq_ok.mp h
    cases h
    exact .of_function? rfl

theorem functionItem_proper {decl : FunctionDecl} {span : Span} {item : Item}
    (h : functionItem decl span = .ok item) : item.Proper := by
  unfold functionItem at h
  split at h
  · cases h
  · obtain ⟨traits, -, h⟩ := Lowered.bind_eq_ok.mp h
    cases h
    intro info builtin hinfo hbuiltin
    cases hinfo
    dsimp only at hbuiltin
    split at hbuiltin
    · exact hbuiltin
    · cases hbuiltin

theorem memberItem_proper {decl : Decl} {item : Item} (h : memberItem decl = .ok item) :
    item.Proper := by
  cases decl with
  | classDecl span decl => exact classItem_proper h
  | functionDecl span decl => exact functionItem_proper h
  | interfaceDecl | typeAlias =>
    cases h
    exact .of_function? rfl
  | importDecl | moduleDecl => cases h

theorem exportDecl_proper {specifier : String} {members after : List (String × Item)} {decl : Decl}
    (hmembers : ∀ name item, members.lookup name = some item → item.Proper)
    (h : exportDecl specifier members decl = .ok after) :
    ∀ name item, after.lookup name = some item → item.Proper := by
  obtain ⟨own, hown, h⟩ := Lowered.bind_eq_ok.mp h
  split at h
  · cases h
    intro name item hitem
    rcases lookup_cons_cases hitem with ⟨-, rfl⟩ | hitem
    · exact memberItem_proper hown
    · exact hmembers name item hitem
  · split at h
    · cases h
      exact hmembers
    · cases h

section Steps

variable {tables after : Tables}

theorem Names.Proper.empty : (Tables.names {}).Proper := by
  refine ⟨?_, ?_⟩ <;> intro name known hknown <;> cases hknown

theorem Names.Proper.enterValue (htables : tables.names.Proper) {name : String} {symbol : Symbol}
    {span : Span} {values : List (String × Symbol)}
    (h : enter tables.values name symbol span = .ok values) (hsymbol : symbol.Proper) :
    (Tables.names { tables with values }).Proper := by
  obtain ⟨-, rfl⟩ := enter_eq_ok.mp h
  refine ⟨fun other found hfound => ?_, htables.exported⟩
  rcases lookup_cons_cases hfound with ⟨-, rfl⟩ | hfound
  · exact hsymbol
  · exact htables.value other found hfound

theorem Names.Proper.types (htables : tables.names.Proper) (types : List (String × Symbol)) :
    (Tables.names { tables with types }).Proper := ⟨htables.value, htables.exported⟩

namespace Tables

theorem declare_proper {decl : Decl} (htables : tables.names.Proper)
    (h : declare tables decl = .ok after) : after.names.Proper := by
  cases declare_eq_ok.mp h with
  | importDecl | overload => exact htables
  | classDecl hitem hvalues htypes =>
    exact (htables.enterValue hvalues (classItem_proper hitem)).types _
  | functionDecl hitem hfirst hvalues =>
    exact htables.enterValue hvalues (functionItem_proper hitem)
  | interfaceDecl | typeAlias => exact htables.types _
  | moduleDecl hnew hambient =>
    simp only [ambientModule, Lowered.bind_eq_ok, Lowered.pure_eq_ok] at hambient
    obtain ⟨traits, -, members, hmembers, rfl⟩ := hambient
    have hproper : ∀ name item, members.lookup name = some item → item.Proper :=
      foldlM_keeps (fun _ _ _ _ hkept hstep => exportDecl_proper hkept hstep)
        (fun _ _ hitem => by cases hitem) hmembers
    refine ⟨htables.value, fun other found hfound => ?_⟩
    rcases lookup_cons_cases hfound with ⟨-, rfl⟩ | hfound
    · exact hproper
    · exact htables.exported other found hfound

theorem bindItem_proper {ambient : AmbientModule} {span : Span} {item : ImportItem}
    (hambient : ∀ name item, ambient.member? name = some item → item.Proper)
    (htables : tables.names.Proper) (h : bindItem ambient span tables item = .ok after) :
    after.names.Proper := by
  obtain ⟨member, values, types, hmember, hvalues, -, rfl⟩ := bindItem_cases h
  rcases hvalues with hvalues | rfl
  · exact (htables.enterValue hvalues (hambient _ _ hmember)).types types
  · exact htables.types types

theorem bindImport_proper {decl : Decl} (htables : tables.names.Proper)
    (h : bindImport tables decl = .ok after) : after.names.Proper := by
  cases decl with
  | importDecl span decl =>
    simp only [bindImport, Lowered.bind_eq_ok] at h
    obtain ⟨specifier, -, h⟩ := h
    split at h
    · cases h
      exact htables
    · rename_i ambient hambient
      unfold bindClause at h
      split at h
      · cases h
        exact htables
      · obtain ⟨values, hvalues, h⟩ := Lowered.bind_eq_ok.mp h
        cases h
        exact htables.enterValue hvalues trivial
      · exact foldlM_keeps (fun _ _ _ _ hkept hitem =>
          bindItem_proper (htables.exported specifier ambient hambient) hkept hitem) htables h
  | _ =>
    cases h
    exact htables

end Tables

end Steps

theorem Names.Proper.ofString?_name {names : Names} (hnames : names.Proper) {builtin : Builtin}
    {symbol : Symbol} (hsymbol : names.builtin? builtin = some symbol) :
    Builtin.ofString? symbol.name = some builtin := by
  unfold Names.builtin? at hsymbol
  obtain ⟨found, hfound, hsymbol⟩ := Option.bind_eq_some_iff.mp hsymbol
  obtain ⟨info, hinfo, hsymbol⟩ := Option.bind_eq_some_iff.mp hsymbol
  split at hsymbol
  · rename_i hbuiltin
    cases hsymbol
    cases symbol with
    | item item => exact hnames.value _ _ hfound info builtin hinfo hbuiltin
    | ambient source => cases hinfo
  · cases hsymbol

/-- A function that is a built-in is declared under the built-in's name. -/
theorem Model.build_builtin {program : Program} {preludes : List Program} {model : TypedModel}
    (h : build program preludes = .ok model) {builtin : Builtin} {symbol : Symbol}
    (hsymbol : model.builtin? builtin = some symbol) :
    Builtin.ofString? symbol.name = some builtin := by
  obtain ⟨tables, hbuild, rfl⟩ := build_eq_ok.mp h
  obtain ⟨declared, hdeclared, hbound⟩ := Lowered.bind_eq_ok.mp hbuild
  have hround : declared.names.Proper :=
    foldlM_keeps (fun _ _ _ _ hkept hstep => Tables.declare_proper hkept hstep) .empty hdeclared
  have hproper : tables.names.Proper :=
    foldlM_keeps (fun _ _ _ _ hkept hstep => Tables.bindImport_proper hkept hstep) hround hbound
  exact hproper.ofString?_name hsymbol

end NativeLowering
