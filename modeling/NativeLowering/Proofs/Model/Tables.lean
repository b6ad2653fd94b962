import NativeLowering.Model.Table
import NativeLowering.Proofs.Ending
import Mathlib.Data.List.Forall2

/-!
# Symbol tables, written out

A symbol table binds names to numbers and a number to a symbol. `Tables` has the symbols themselves
under the names, which is what proofs about building want to see. A table that is being built refers
to such tables with everything it binds (`SymbolTable.Reads`), so none of its bindings dangles, and
building the one goes in step with building the other (`SymbolTable.build_reads`). The answers are
then the same (`Model.build_eq`).
-/

set_option autoImplicit false

namespace NativeLowering

/-- What the names of a program stand for, by name. -/
structure Tables where
  values : List (String × Symbol) := []
  types : List (String × Symbol) := []
  modules : List (String × AmbientModule) := []

namespace Tables

/-! ## Questions -/

/-- What a name stands for as a value. -/
def resolve? (tables : Tables) (name : String) : Option Symbol := tables.values.lookup name

/-- What a name stands for as a type. -/
def resolveType? (tables : Tables) (name : String) : Option Symbol := tables.types.lookup name

/-- The ambient module of a specifier. -/
def module? (tables : Tables) (specifier : String) : Option AmbientModule :=
  tables.modules.lookup specifier

/-- What names stand for by the tables. -/
def names (tables : Tables) : Names where
  resolve? := tables.resolve?
  resolveType? := tables.resolveType?
  module? := tables.module?

/-! ## First round: declarations -/

/-- Enters a declaration. -/
def declare (tables : Tables) : Decl → Lowered Tables
  | .importDecl .. => .ok tables
  | .classDecl span decl => do
    let item ← classItem decl span
    let values ← enter tables.values item.name (.item item) span
    let types ← enter tables.types item.name (.item item) span
    return { tables with values, types }
  | .functionDecl span decl => do
    let item ← functionItem decl span
    if tables.names.isOverload item then return tables
    else
      let values ← enter tables.values item.name (.item item) span
      return { tables with values }
  | .interfaceDecl span decl => do
    let types ← enter tables.types decl.name (.item (interfaceItem decl span)) span
    return { tables with types }
  | .typeAlias span name => do
    let types ← enter tables.types name (.item (aliasItem name span)) span
    return { tables with types }
  | .moduleDecl span decorators _ specifier body =>
    if (tables.module? specifier).isSome then failAt span (.duplicateModule specifier)
    else do
      let ambient ← ambientModule span decorators specifier body
      return { tables with modules := (specifier, ambient) :: tables.modules }

/-! ## Second round: imports -/

/-- Binds one name of a named import, in each space that the exported item lives in. -/
def bindItem (ambient : AmbientModule) (span : Span) (tables : Tables) (item : ImportItem) :
    Lowered Tables :=
  match ambient.member? item.name with
  | none => failAt span (.missingExport ambient.specifier item.name)
  | some member => do
    let values ←
      (if member.kind.isValue then enter tables.values item.localName (.item member) span
        else .ok tables.values)
    let types ←
      (if member.kind.isType then enter tables.types item.localName (.item member) span
        else .ok tables.types)
    return { tables with values, types }

/-- Binds what an import clause names. -/
def bindClause (tables : Tables) (ambient : AmbientModule) (span : Span) :
    Option ImportClause → Lowered Tables
  | none => .ok tables
  | some (.whole name) => do
    let values ← enter tables.values name (.ambient ambient) span
    return { tables with values }
  | some (.named items) => items.foldlM (bindItem ambient span) tables

/-- Binds an import; other declarations are done with. -/
def bindImport (tables : Tables) : Decl → Lowered Tables
  | .importDecl _ decl => do
    let specifier ← decl.specifierText
    match tables.module? specifier with
    | none => return tables
    | some ambient => tables.bindClause ambient decl.specifier.span decl.clause
  | _ => .ok tables

/-- The tables of all declarations of the sources. -/
def build (decls : List Decl) : Lowered Tables := do
  let tables ← decls.foldlM declare {}
  decls.foldlM bindImport tables

end Tables

/-! ## Names that refer -/

theorem mem_of_lookup {α : Type} {table : List (String × α)} {name : String} {value : α}
    (h : table.lookup name = some value) : (name, value) ∈ table := by
  obtain ⟨first, second, rfl, -⟩ := List.lookup_eq_some_iff.mp h
  simp

section Referring

variable {α β : Type}

/-- Under the same name stands what the bound value refers to. -/
def Refers (find : β → Option α) (bound : String × β) (entry : String × α) : Prop :=
  bound.1 = entry.1 ∧ find bound.2 = some entry.2

variable {find : β → Option α} {bindings : List (String × β)} {entries : List (String × α)}

/-- Either nothing is known of a name, or it is bound, and to what stands under it. -/
theorem lookup_cases (h : List.Forall₂ (Refers find) bindings entries) (name : String) :
    (bindings.lookup name = none ∧ entries.lookup name = none) ∨
      ∃ bound value, bindings.lookup name = some bound ∧ find bound = some value ∧
        entries.lookup name = some value := by
  induction h with
  | nil => exact .inl ⟨rfl, rfl⟩
  | @cons bound entry bindings entries hhead _ ih =>
    obtain ⟨hname, hfound⟩ := hhead
    rw [List.lookup_cons, List.lookup_cons, ← hname]
    cases name == bound.1 with
    | true => exact .inr ⟨_, _, rfl, hfound, rfl⟩
    | false => exact ih

theorem lookup_refers (h : List.Forall₂ (Refers find) bindings entries) (name : String) :
    (bindings.lookup name).bind find = entries.lookup name := by
  rcases lookup_cases h name with ⟨hnone, hnone'⟩ | ⟨bound, value, hbound, hfound, hvalue⟩
  · rw [hnone, hnone', Option.bind_none]
  · rw [hbound, hvalue, Option.bind_some, hfound]

theorem isSome_lookup_refers (h : List.Forall₂ (Refers find) bindings entries) (name : String) :
    (bindings.lookup name).isSome = (entries.lookup name).isSome := by
  rcases lookup_cases h name with ⟨hnone, hnone'⟩ | ⟨bound, value, hbound, -, hvalue⟩
  · rw [hnone, hnone']
    rfl
  · rw [hbound, hvalue]
    rfl

/-- Entering a name goes in step, if what is bound refers to what is entered. -/
theorem enter_refers (h : List.Forall₂ (Refers find) bindings entries) {bound : β} {value : α}
    (hbound : find bound = some value) (name : String) (span : Span) :
    Lowered.InStep (List.Forall₂ (Refers find)) (enter bindings name bound span)
      (enter entries name value span) := by
  unfold enter
  rw [isSome_lookup_refers h]
  split
  · exact .error _
  · exact .ok (.cons ⟨rfl, hbound⟩ h)

/-- What is found is still found by whatever finds no less. -/
theorem refers_mono {find' : β → Option α}
    (hmore : ∀ bound value, find bound = some value → find' bound = some value)
    (h : List.Forall₂ (Refers find) bindings entries) :
    List.Forall₂ (Refers find') bindings entries :=
  h.imp fun _ _ hentry => ⟨hentry.1, hmore _ _ hentry.2⟩

end Referring

/-- A module has the specifier under which it is declared. -/
theorem ambientModule_specifier {span : Span} {decorators : List Decorator} {specifier : String}
    {body : List Decl} {ambient : AmbientModule}
    (h : ambientModule span decorators specifier body = .ok ambient) :
    ambient.specifier = specifier := by
  simp only [ambientModule, Lowered.bind_eq_ok, Lowered.pure_eq_ok] at h
  obtain ⟨traits, -, members, -, rfl⟩ := h
  rfl

namespace SymbolTable

/-- Everything that the table binds refers to what stands in the tables: no binding dangles. -/
structure Reads (table : SymbolTable) (tables : Tables) : Prop where
  values : List.Forall₂ (Refers table.bound?) table.values tables.values
  types : List.Forall₂ (Refers table.bound?) table.types tables.types
  modules : List.Forall₂ (Refers table.ambient?) table.modules tables.modules
  /-- A module stands under its specifier. -/
  specifiers : ∀ entry ∈ tables.modules, entry.2.specifier = entry.1

section Steps

variable {table : SymbolTable} {tables : Tables}

theorem Reads.names_eq (h : table.Reads tables) : table.names = tables.names := by
  have hvalue : table.resolve? = tables.resolve? := funext (lookup_refers h.values)
  have htype : table.resolveType? = tables.resolveType? := funext (lookup_refers h.types)
  have hmodule : table.module? = tables.module? := funext (lookup_refers h.modules)
  rw [names, Tables.names, hvalue, htype, hmodule]

/-! ## Numbers -/

theorem symbol?_push {id : SymbolId} {found : Symbol} (symbol : Symbol)
    (h : table.symbol? id = some found) : (table.push symbol).symbol? id = some found := by
  obtain ⟨hid, -⟩ := Array.getElem?_eq_some_iff.mp h
  exact (Array.getElem?_push_lt hid).trans ((Array.getElem?_eq_getElem hid).symm.trans h)

theorem symbol?_next (table : SymbolTable) (symbol : Symbol) :
    (table.push symbol).symbol? table.next = some symbol := Array.getElem?_push_size

theorem ambient?_push {id : SymbolId} {found : AmbientModule} (symbol : Symbol)
    (h : table.ambient? id = some found) : (table.push symbol).ambient? id = some found := by
  obtain ⟨known, hknown, hambient⟩ := Option.bind_eq_some_iff.mp h
  exact Option.bind_eq_some_iff.mpr ⟨known, symbol?_push symbol hknown, hambient⟩

theorem bound?_push {binding : Binding} {found : Symbol} (symbol : Symbol)
    (h : table.bound? binding = some found) : (table.push symbol).bound? binding = some found := by
  cases binding with
  | symbol id => exact symbol?_push symbol h
  | member source name =>
    obtain ⟨item, hitem, hfound⟩ := Option.map_eq_some_iff.mp h
    obtain ⟨ambient, hambient, hmember⟩ := Option.bind_eq_some_iff.mp hitem
    refine Option.map_eq_some_iff.mpr ⟨item, ?_, hfound⟩
    exact Option.bind_eq_some_iff.mpr ⟨ambient, ambient?_push symbol hambient, hmember⟩

/-- A new symbol takes nothing from what the old ones are. -/
theorem Reads.push (h : table.Reads tables) (symbol : Symbol) :
    (table.push symbol).Reads tables where
  values := refers_mono (fun _ _ => bound?_push symbol) h.values
  types := refers_mono (fun _ _ => bound?_push symbol) h.types
  modules := refers_mono (fun _ _ => ambient?_push symbol) h.modules
  specifiers := h.specifiers

theorem ambient?_eq_some {id : SymbolId} {ambient : AmbientModule} :
    table.ambient? id = some ambient ↔ table.symbol? id = some (.ambient ambient) := by
  unfold ambient?
  cases table.symbol? id with
  | none => simp
  | some symbol => cases symbol <;> simp [Symbol.ambient?]

/-! ## Steps -/

/-- What is entered under a name is what the table binds the name to. -/
theorem declare_reads (h : table.Reads tables) (decl : Decl) :
    Lowered.InStep Reads (table.declare decl) (tables.declare decl) := by
  have hpush (symbol : Symbol) := h.push symbol
  have hnext (symbol : Symbol) :
      (table.push symbol).bound? (.symbol table.next) = some symbol := symbol?_next table symbol
  cases decl with
  | importDecl => exact .ok h
  | classDecl span decl =>
    refine (Lowered.InStep.refl (classItem decl span)).bind ?_
    rintro item _ rfl
    refine (enter_refers (hpush _).values (hnext _) item.name span).bind fun _ _ hvalues => ?_
    refine (enter_refers (hpush _).types (hnext _) item.name span).bind fun _ _ htypes => ?_
    exact .ok ⟨hvalues, htypes, (hpush _).modules, h.specifiers⟩
  | functionDecl span decl =>
    refine (Lowered.InStep.refl (functionItem decl span)).bind ?_
    rintro item _ rfl
    rw [h.names_eq]
    split
    · exact .ok h
    · refine (enter_refers (hpush _).values (hnext _) item.name span).bind fun _ _ hvalues => ?_
      exact .ok ⟨hvalues, (hpush _).types, (hpush _).modules, h.specifiers⟩
  | interfaceDecl span decl =>
    refine (enter_refers (hpush _).types (hnext _) decl.name span).bind fun _ _ htypes => ?_
    exact .ok ⟨(hpush _).values, htypes, (hpush _).modules, h.specifiers⟩
  | typeAlias span name =>
    refine (enter_refers (hpush _).types (hnext _) name span).bind fun _ _ htypes => ?_
    exact .ok ⟨(hpush _).values, htypes, (hpush _).modules, h.specifiers⟩
  | moduleDecl span decorators declared specifier body =>
    rw [declare, Tables.declare, Tables.module?, isSome_lookup_refers h.modules]
    split
    · exact .error _
    · cases hambient : ambientModule span decorators specifier body with
      | error error => exact .error error
      | ok ambient =>
        have hpushed := hpush (.ambient ambient)
        have hsource : (table.push (.ambient ambient)).ambient? table.next = some ambient :=
          ambient?_eq_some.mpr (symbol?_next table _)
        refine .ok ⟨hpushed.values, hpushed.types, .cons ⟨rfl, hsource⟩ hpushed.modules, ?_⟩
        exact List.forall_mem_cons.mpr ⟨ambientModule_specifier hambient, h.specifiers⟩

section Binding

variable {source : SymbolId} {ambient : AmbientModule}

/-- What is bound for a named import refers to what the module exports. -/
theorem bindItem_reads (h : table.Reads tables) (hsource : table.ambient? source = some ambient)
    (span : Span) (item : ImportItem) :
    Lowered.InStep (fun table tables => table.Reads tables ∧ table.ambient? source = some ambient)
      (bindItem source ambient.specifier span table item)
      (Tables.bindItem ambient span tables item) := by
  unfold bindItem Tables.bindItem
  rw [hsource, Option.bind_some]
  cases hmember : ambient.member? item.name with
  | none => exact .error _
  | some member =>
    have hbound : table.bound? (.member source item.name) = some (.item member) := by
      rw [bound?, hsource, Option.bind_some, hmember, Option.map_some]
    have henter {bindings : List (String × Binding)} {entries : List (String × Symbol)}
        (hrefers : List.Forall₂ (Refers table.bound?) bindings entries) (entering : Bool) :
        Lowered.InStep (List.Forall₂ (Refers table.bound?))
          (if entering then enter bindings item.localName (.member source item.name) span
            else .ok bindings)
          (if entering then enter entries item.localName (.item member) span else .ok entries) := by
      cases entering with
      | true => exact enter_refers hrefers hbound item.localName span
      | false => exact .ok hrefers
    refine (henter h.values member.kind.isValue).bind fun _ _ hvalues => ?_
    refine (henter h.types member.kind.isType).bind fun _ _ htypes => ?_
    exact .ok ⟨⟨hvalues, htypes, h.modules, h.specifiers⟩, hsource⟩

theorem bindClause_reads (h : table.Reads tables) (hsource : table.ambient? source = some ambient)
    (span : Span) (clause : Option ImportClause) :
    Lowered.InStep Reads (bindClause source ambient.specifier span table clause)
      (Tables.bindClause tables ambient span clause) := by
  match clause with
  | none => exact .ok h
  | some (.whole name) =>
    have hbound : table.bound? (.symbol source) = some (.ambient ambient) :=
      ambient?_eq_some.mp hsource
    refine (enter_refers h.values hbound name span).bind fun _ _ hvalues => ?_
    exact .ok ⟨hvalues, h.types, h.modules, h.specifiers⟩
  | some (.named items) =>
    have hitems := Lowered.InStep.foldlM
      (fun _ _ item hstate => bindItem_reads hstate.1 hstate.2 span item) items ⟨h, hsource⟩
    exact hitems.imp fun _ _ hafter => hafter.1

end Binding

theorem bindImport_reads (h : table.Reads tables) (decl : Decl) :
    Lowered.InStep Reads (table.bindImport decl) (tables.bindImport decl) := by
  cases decl with
  | importDecl span decl =>
    refine (Lowered.InStep.refl decl.specifierText).bind ?_
    rintro specifier _ rfl
    rcases lookup_cases h.modules specifier with ⟨hnone, hnone'⟩ | ⟨source, ambient, hsource, hambient,
      hfound⟩
    · simp only [hnone, Tables.module?, hnone']
      exact .ok h
    · obtain rfl : ambient.specifier = specifier :=
        h.specifiers (specifier, ambient) (mem_of_lookup hfound)
      simp only [hsource, Tables.module?, hfound]
      exact bindClause_reads h hambient decl.specifier.span decl.clause
  | _ => exact .ok h

/-- Building a table goes in step with building tables. -/
theorem build_reads (decls : List Decl) :
    Lowered.InStep Reads (build decls) (Tables.build decls) := by
  have hempty : Reads {} {} := ⟨.nil, .nil, .nil, nofun⟩
  refine (Lowered.InStep.foldlM (fun _ _ decl h => declare_reads h decl) decls hempty).bind ?_
  exact fun _ _ h => Lowered.InStep.foldlM (fun _ _ decl h => bindImport_reads h decl) decls h

end Steps

/-- The table of sources that have one refers to tables of theirs. -/
theorem exists_reads {decls : List Decl} {table : SymbolTable} (h : build decls = .ok table) :
    ∃ tables, Tables.build decls = .ok tables ∧ table.Reads tables := by
  have hstep := build_reads decls
  rw [h] at hstep
  generalize hbuild : Tables.build decls = built at hstep
  cases hstep with
  | ok hreads => exact ⟨_, rfl, hreads⟩

end SymbolTable

/-- Names stand in the model of a program for what they stand for by the tables. -/
theorem Model.build_eq (program : Program) (preludes : List Program) :
    build program preludes
      = (Tables.build (sources program preludes)).map fun tables => tables.names.model := by
  unfold build
  have hstep := SymbolTable.build_reads (sources program preludes)
  generalize SymbolTable.build (sources program preludes) = built at hstep
  generalize Tables.build (sources program preludes) = built' at hstep
  cases hstep with
  | ok hreads => exact congrArg (fun names => Except.ok (Names.model names)) hreads.names_eq
  | error e => rfl

theorem Model.build_eq_ok {program : Program} {preludes : List Program} {model : TypedModel} :
    build program preludes = .ok model ↔
      ∃ tables, Tables.build (sources program preludes) = .ok tables ∧
        model = tables.names.model := by
  rw [build_eq]
  exact Lowered.map_eq_ok

end NativeLowering
