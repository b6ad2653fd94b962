import NativeLowering.Proofs.Model.Kept

/-!
# The name spaces of a model are consistent

Lowering looks names up in the value space and in the type space, and relies on what it finds there.
In a table that is built no binding dangles: every name that is bound stands for a symbol of its
space, and the symbol is one that the sources declare, a module, or what a module exports
(`Names.Origin`). A class stands under its name in both spaces or in neither, and a built-in is found
under the name of its symbol (`Model.build_consistent`).

`Tables.Sound` is what each step of building keeps.
-/

set_option autoImplicit false

namespace NativeLowering

open Vocabulary (Builtin Entry)

/-! ## Tables -/

theorem exists_lookup_of_mem {α : Type} {name : String} : ∀ {table : List (String × α)},
    name ∈ table.map Prod.fst → ∃ value, table.lookup name = some value
  | (first, value) :: rest, h => by
    rw [List.lookup_cons]
    cases heq : name == first with
    | true => exact ⟨value, rfl⟩
    | false =>
      rcases List.mem_cons.mp h with rfl | h
      · simp at heq
      · exact exists_lookup_of_mem h

/-- What is found in a table that holds one entry or none. -/
theorem lookup_single {α : Type} {name other : String} {value found : α} {entered : Bool} :
    (if entered then [(name, value)] else []).lookup other = some found ↔
      entered = true ∧ other = name ∧ value = found := by
  cases entered with
  | false => simp
  | true =>
    rw [if_pos rfl, List.lookup_cons]
    cases heq : other == name with
    | true => simp [eq_of_beq heq]
    | false => simpa using fun h => absurd h (ne_of_beq_false heq)

/-! ## Where symbols come from -/

/-- What a name is bound to is there: a declaration of the sources declares it under that name, or
it is a module that is found, or what such a module exports. -/
inductive Names.Origin (decls : List Decl) (find : String → Option AmbientModule) (name : String) :
    Symbol → Prop where
  | declared {decl : Decl} {item : Item} : decl ∈ decls → topItem decl = .ok item →
    item.name = name → Origin decls find name (.item item)
  | ambient {specifier : String} {source : AmbientModule} : find specifier = some source →
    Origin decls find name (.ambient source)
  | exported {specifier member : String} {source : AmbientModule} {item : Item} :
    find specifier = some source → source.member? member = some item →
    Origin decls find name (.item item)

/-- The module is that of a declaration of the sources. -/
def Names.DeclaresModule (decls : List Decl) (specifier : String) (source : AmbientModule) : Prop :=
  ∃ span decorators declared body, .moduleDecl span decorators declared specifier body ∈ decls ∧
    ambientModule span decorators specifier body = .ok source

namespace Tables

open Names (Origin DeclaresModule)

/-- What is found under a name is there and is of the right space, and a class is found in both
spaces if it is found in one. -/
structure Sound (decls : List Decl) (find : String → Option AmbientModule) (tables : Tables) :
    Prop where
  value : ∀ name symbol, tables.resolve? name = some symbol →
    symbol.kind.isValue = true ∧ Origin decls find name symbol
  type : ∀ name symbol, tables.resolveType? name = some symbol →
    symbol.kind.isType = true ∧ Origin decls find name symbol
  module : ∀ specifier source, tables.module? specifier = some source →
    DeclaresModule decls specifier source
  classes : ∀ name symbol, symbol.kind = .classKind →
    (tables.resolveType? name = some symbol ↔ tables.resolve? name = some symbol)

/-! ## Steps -/

section Steps

variable {decls : List Decl} {find : String → Option AmbientModule} {tables after : Tables}

theorem Sound.empty (decls : List Decl) (find : String → Option AmbientModule) :
    Sound decls find {} where
  value _ _ h := nomatch h
  type _ _ h := nomatch h
  module _ _ h := nomatch h
  classes _ _ _ := ⟨nofun, nofun⟩

theorem not_isDeclaredFunction {symbol : Symbol} (hkind : symbol.kind = .classKind) :
    ¬ symbol.IsDeclaredFunction := by
  intro hdeclared
  cases symbol with
  | item item => cases (kind_of_isDeclaredFunction hdeclared).symm.trans hkind
  | ambient source => exact hdeclared

/-- Sound tables that fit together make sound ones. Only declared functions share a name, so nothing
stands in the way of a class. -/
theorem Sound.join {first second whole : Tables} (h : Sound decls find first)
    (h' : Sound decls find second) (hfits : Compatible Symbol.IsDeclaredFunction first second)
    (hknows : Knows [first, second] whole) : Sound decls find whole := by
  have hparts : ∀ part ∈ [first, second], Sound decls find part := by simp [h, h']
  refine ⟨fun name symbol hsymbol => ?_, fun name item hitem => ?_, fun specifier source hsource => ?_,
    fun name item hkind => ?_⟩
  · rw [hknows.value] at hsymbol
    obtain ⟨part, hpart, hsymbol⟩ := List.exists_of_findSome?_eq_some hsymbol
    exact (hparts part hpart).value name symbol hsymbol
  · rw [hknows.type] at hitem
    obtain ⟨part, hpart, hitem⟩ := List.exists_of_findSome?_eq_some hitem
    exact (hparts part hpart).type name item hitem
  · rw [hknows.module] at hsource
    obtain ⟨part, hpart, hsource⟩ := List.exists_of_findSome?_eq_some hsource
    exact (hparts part hpart).module specifier source hsource
  · rw [hknows.type, hknows.value, findSome?_pair, findSome?_pair, Option.or_eq_some_iff,
      Option.or_eq_some_iff, h.classes name item hkind, h'.classes name item hkind]
    refine or_congr_right (and_congr_left fun hsecond => ?_)
    have htype := (h'.classes name item hkind).mpr hsecond
    have hnew : first.resolveType? name = none :=
      (hfits.type name).resolve_right (by simp [htype])
    refine iff_of_true hnew ?_
    cases hfirst : first.resolve? name with
    | none => rfl
    | some symbol =>
      exact absurd (hfits.value name _ _ hfirst hsecond).2 (not_isDeclaredFunction hkind)

/-- An item that is entered in each space its kind lives in. A class lives in both. -/
theorem sound_item {name : String} {item : Item} (horigin : Origin decls find name (.item item)) :
    Sound decls find { values := if item.kind.isValue then [(name, .item item)] else []
                       types := if item.kind.isType then [(name, .item item)] else [] } := by
  refine ⟨fun other symbol hsymbol => ?_, fun other found hfound => ?_, nofun,
    fun other found hkind => ?_⟩
  · obtain ⟨hvalue, rfl, rfl⟩ := lookup_single.mp hsymbol
    exact ⟨hvalue, horigin⟩
  · obtain ⟨htype, rfl, rfl⟩ := lookup_single.mp hfound
    exact ⟨htype, horigin⟩
  · have hboth (hsame : .item item = found) :
        item.kind.isValue = true ∧ item.kind.isType = true := by
      have hclass : item.kind = .classKind := by
        rw [← hkind, ← hsame]
        rfl
      rw [hclass]
      exact ⟨rfl, rfl⟩
    refine lookup_single.trans (Iff.trans ?_ lookup_single.symm)
    exact and_congr_left fun hfound => iff_of_true (hboth hfound.2).2 (hboth hfound.2).1

/-- Only an ambient module enters a module. -/
theorem declare_modules {decl : Decl} (hdecl : decl.declaresItem = true)
    (hrun : declare tables decl = .ok after) : after.modules = tables.modules := by
  cases declare_eq_ok.mp hrun with
  | moduleDecl => cases hdecl
  | _ => rfl

/-- What a declaration brings in is sound. -/
theorem declare_own_sound {decl : Decl} {own : Tables} (hdecl : decl ∈ decls)
    (hown : declare {} decl = .ok own) : Sound decls find own := by
  cases hitem : decl.declaresItem with
  | true =>
    obtain ⟨item, htop, hvalues, htypes⟩ := declare_topItem hitem hown
    have hmodules : own.modules = [] := declare_modules hitem hown
    obtain ⟨values, types, modules⟩ := own
    subst hvalues htypes hmodules
    exact sound_item (.declared hdecl htop rfl)
  | false =>
    cases declare_eq_ok.mp hown with
    | importDecl => exact .empty decls find
    | moduleDecl hnew hambient =>
      have hempty := Sound.empty decls find
      refine ⟨hempty.value, hempty.type, fun other source hsource => ?_, hempty.classes⟩
      obtain ⟨rfl, rfl⟩ := (lookup_cons_cases hsource).resolve_right nofun
      exact ⟨_, _, _, _, hdecl, hambient⟩
    | _ => cases hitem

/-- One declaration keeps the tables sound. -/
theorem declare_sound (h : Sound decls find tables) {decl : Decl} (hdecl : decl ∈ decls)
    (hrun : declare tables decl = .ok after) : Sound decls find after := by
  obtain ⟨own, hown, hfits, hknows⟩ := (declare_gathers decl).sound hrun
  exact h.join (declare_own_sound hdecl hown) hfits hknows

/-- Binding what a module exports keeps the tables sound. -/
theorem bindItem_sound (h : Sound decls find tables) {specifier : String} {source : AmbientModule}
    {span : Span} (hsource : find specifier = some source) {item : ImportItem}
    (hrun : bindItem source span tables item = .ok after) : Sound decls find after := by
  obtain ⟨own, hown, hfits, hknows⟩ := (bindItem_gathers source span item).sound hrun
  obtain ⟨member, values, types, hmember, hvalues, htypes, rfl⟩ := bindItem_eq_ok.mp hown
  obtain ⟨-, rfl⟩ := enterIf_eq_ok.mp hvalues
  obtain ⟨-, rfl⟩ := enterIf_eq_ok.mp htypes
  simp only [List.append_nil] at hfits hknows
  exact h.join (sound_item (.exported hsource hmember)) (Apart.compatible hfits) hknows

/-- One import keeps the tables sound. -/
theorem bindFrom_sound (h : Sound decls find tables) {decl : Decl}
    (hrun : bindFrom find tables decl = .ok after) : Sound decls find after := by
  cases decl with
  | importDecl span decl =>
    obtain ⟨specifier, -, hrun⟩ := Lowered.bind_eq_ok.mp hrun
    split at hrun
    · cases hrun
      exact h
    · rename_i source hsource
      unfold bindClause at hrun
      split at hrun
      · cases hrun
        exact h
      · rename_i name _
        obtain ⟨own, hown, hapart, rfl⟩ := enterValue_eq_ok.mp hrun
        cases hown
        refine h.join ?_ (Apart.compatible hapart) (Apart.knows hapart)
        have hempty := Sound.empty decls find
        refine ⟨fun other symbol hsymbol => ?_, hempty.type, hempty.module,
          fun other symbol hkind => ⟨nofun, fun hsymbol => ?_⟩⟩
        · obtain ⟨rfl, rfl⟩ := (lookup_cons_cases hsymbol).resolve_right nofun
          exact ⟨rfl, .ambient hsource⟩
        · obtain ⟨-, rfl⟩ := (lookup_cons_cases hsymbol).resolve_right nofun
          cases hkind
      · exact foldlM_keeps (fun _ _ _ _ hkept hstep => bindItem_sound hkept hsource hstep) h hrun
  | _ =>
    cases hrun
    exact h

end Steps

end Tables

/-! ## Tables that are built -/

theorem Tables.build_sound {decls : List Decl} {tables : Tables} (h : build decls = .ok tables) :
    Sound decls tables.module? tables := by
  obtain ⟨declared, hdeclared, hbound⟩ := Lowered.bind_eq_ok.mp h
  rw [foldlM_bindImport] at hbound
  have hmodules : tables.module? = declared.module? := by
    have hkeeps (state : Tables) (decl : Decl) (next : Tables) (_ : decl ∈ decls)
        (hkept : state.modules = declared.modules)
        (hstep : bindFrom declared.module? state decl = .ok next) :
        next.modules = declared.modules :=
      (bindFrom_modules hstep).trans hkept
    have hkept : tables.modules = declared.modules := foldlM_keeps hkeeps rfl hbound
    funext specifier
    rw [module?, hkept]
    rfl
  rw [hmodules]
  have hround : Sound decls declared.module? declared :=
    foldlM_keeps (fun _ _ _ hdecl hsound hstep => declare_sound hsound hdecl hstep) (.empty _ _)
      hdeclared
  exact foldlM_keeps (fun _ _ _ _ hsound hstep => bindFrom_sound hsound hstep) hround hbound

namespace Model

/-- A built-in is found under the name of its symbol. -/
theorem build_builtin_function {program : Program} {preludes : List Program} {model : TypedModel}
    (h : build program preludes = .ok model) {builtin : Builtin} {symbol : Symbol}
    (hsymbol : model.builtin? builtin = some symbol) :
    model.resolve? symbol.name = some symbol ∧
      ∃ info, symbol.function? = some info ∧ info.builtin = some builtin := by
  have hname : symbol.name = builtin.spelling := Builtin.eq_spelling (build_builtin h hsymbol)
  obtain ⟨found, hfound, hrest⟩ := Option.bind_eq_some_iff.mp hsymbol
  obtain ⟨info, hinfo, hrest⟩ := Option.bind_eq_some_iff.mp hrest
  split at hrest
  · rename_i hbuiltin
    cases hrest
    exact ⟨hname ▸ hfound, info, hinfo, hbuiltin⟩
  · cases hrest

end Model

/-! ## The symbol table -/

section Referring

variable {α β : Type} {find : β → Option α} {bindings : List (String × β)}
  {entries : List (String × α)}

/-- Whatever is bound refers to something. -/
theorem exists_of_refers (h : List.Forall₂ (Refers find) bindings entries) {bound : String × β}
    (hbound : bound ∈ bindings) : ∃ value, find bound.2 = some value := by
  induction h with
  | nil => cases hbound
  | @cons first entry bindings entries hhead _ ih =>
    rcases List.mem_cons.mp hbound with rfl | hbound
    · exact ⟨entry.2, hhead.2⟩
    · exact ih hbound

/-- A name that is bound is looked up with success. -/
theorem lookup_of_refers (h : List.Forall₂ (Refers find) bindings entries) {name : String}
    (hname : name ∈ bindings.map Prod.fst) : ∃ value, entries.lookup name = some value := by
  obtain ⟨bound, hbound⟩ := exists_lookup_of_mem hname
  rcases lookup_cases h name with ⟨hnone, -⟩ | ⟨-, value, -, -, hvalue⟩
  · cases hnone.symm.trans hbound
  · exact ⟨value, hvalue⟩

end Referring

namespace SymbolTable

open Names (Origin DeclaresModule)

/-- What lowering relies on when it looks a name up. -/
structure Consistent (decls : List Decl) (table : SymbolTable) : Prop where
  /-- No binding of a name dangles. -/
  bound : ∀ entry ∈ table.values ++ table.types, ∃ symbol, table.bound? entry.2 = some symbol
  /-- No specifier dangles. -/
  ambient : ∀ entry ∈ table.modules, ∃ source, table.ambient? entry.2 = some source
  /-- A name that is bound as a value stands for a value that is there. -/
  value : ∀ name ∈ table.values.map Prod.fst, ∃ symbol, table.names.resolve? name = some symbol ∧
    symbol.kind.isValue = true ∧ Origin decls table.names.module? name symbol
  /-- A name that is bound as a type stands for a type that is there. -/
  type : ∀ name ∈ table.types.map Prod.fst, ∃ symbol, table.names.resolveType? name = some symbol ∧
    symbol.kind.isType = true ∧ Origin decls table.names.module? name symbol
  /-- A specifier stands for the module that is declared under it. -/
  module : ∀ specifier ∈ table.modules.map Prod.fst, ∃ source,
    table.names.module? specifier = some source ∧ (Symbol.ambient source).kind = .moduleKind ∧
      source.specifier = specifier ∧ DeclaresModule decls specifier source
  /-- A name stands for a class in both spaces or in neither, and for the same one. -/
  classes : ∀ name symbol, symbol.kind = .classKind →
    (table.names.resolveType? name = some symbol ↔ table.names.resolve? name = some symbol)
  /-- The name of a built-in's symbol stands for that symbol, a function that is the built-in. -/
  builtins : ∀ builtin symbol, table.names.builtin? builtin = some symbol →
    table.names.resolve? symbol.name = some symbol ∧
      ∃ info, symbol.function? = some info ∧ info.builtin = some builtin

end SymbolTable

namespace Model

/-- **The name spaces of a model are consistent.** -/
theorem build_consistent {program : Program} {preludes : List Program} {model : TypedModel}
    (h : build program preludes = .ok model) :
    ∃ table, SymbolTable.build (sources program preludes) = .ok table ∧ model = table.names.model ∧
      table.Consistent (sources program preludes) := by
  obtain ⟨table, hbuild, rfl⟩ := Lowered.map_eq_ok.mp h
  obtain ⟨tables, htables, hreads⟩ := SymbolTable.exists_reads hbuild
  have hsound := Tables.build_sound htables
  refine ⟨table, hbuild, rfl, ⟨fun entry hentry => ?_, fun entry hentry => ?_, ?_, ?_, ?_, ?_,
    fun builtin symbol hsymbol => build_builtin_function h hsymbol⟩⟩
  · rcases List.mem_append.mp hentry with hentry | hentry
    · exact exists_of_refers hreads.values hentry
    · exact exists_of_refers hreads.types hentry
  · exact exists_of_refers hreads.modules hentry
  all_goals rw [hreads.names_eq]
  · intro name hname
    obtain ⟨symbol, hsymbol⟩ := lookup_of_refers hreads.values hname
    exact ⟨symbol, hsymbol, hsound.value name symbol hsymbol⟩
  · intro name hname
    obtain ⟨symbol, hsymbol⟩ := lookup_of_refers hreads.types hname
    exact ⟨symbol, hsymbol, hsound.type name symbol hsymbol⟩
  · intro specifier hspecifier
    obtain ⟨source, hsource⟩ := lookup_of_refers hreads.modules hspecifier
    have hdeclared := hsound.module specifier source hsource
    obtain ⟨span, decorators, declared, body, -, hambient⟩ := id hdeclared
    exact ⟨source, hsource, rfl, ambientModule_specifier hambient, hdeclared⟩
  · exact hsound.classes

section Toolkit

open Build

/-- A module that exports a class and the function that takes addresses. -/
def toolkit : Program :=
  program [moduleOf "kit" [declared (classOf "Canvas" []),
    declaredFunction "addressof" [param "value" (keyword .number)] (keyword .number)]]

/-- A program that imports the module as a whole and by its names. -/
def drawing : Program :=
  program [importWhole "kit" "kit", importNamed "kit" ["Canvas", "addressof"],
    function "main" [] void []]

theorem build_consistent_drawing : ∃ table,
    SymbolTable.build (sources drawing [toolkit]) = .ok table ∧
      table.Consistent (sources drawing [toolkit]) ∧
      table.values.map Prod.fst = ["addressof", "Canvas", "kit", "main"] ∧
      table.types.map Prod.fst = ["Canvas"] ∧ table.modules.map Prod.fst = ["kit"] ∧
      (table.names.builtin? .addressOf).isSome = true := by
  obtain ⟨model, hmodel⟩ : ∃ model, build drawing [toolkit] = .ok model := ⟨_, rfl⟩
  obtain ⟨table, hbuild, rfl, hconsistent⟩ := build_consistent hmodel
  have hbound : (SymbolTable.build (sources drawing [toolkit])).toOption.map (fun table =>
      (table.values.map Prod.fst, table.types.map Prod.fst, table.modules.map Prod.fst,
        (table.names.builtin? .addressOf).isSome)) =
      some (["addressof", "Canvas", "kit", "main"], ["Canvas"], ["kit"], true) := by decide +kernel
  rw [hbuild] at hbound
  obtain ⟨hvalues, hbound⟩ := Prod.mk.inj (Option.some.inj hbound)
  obtain ⟨htypes, hbound⟩ := Prod.mk.inj hbound
  obtain ⟨hmodules, hbuiltin⟩ := Prod.mk.inj hbound
  exact ⟨table, hbuild, hconsistent, hvalues, htypes, hmodules, hbuiltin⟩

end Toolkit

end Model

end NativeLowering
