import NativeLowering.Proofs.Model.Parts

/-!
# The parts of the sources

Both rounds of building gather parts. Two declarations may bring in the same name only if both are
functions that native code provides (`declare_gathers`); imports may not even do that
(`bindFrom_gathers`). Having tables and having compatible parts (`Parts`) is therefore the same
(`build_parts`, `Parts.build`), and the parts go with the declarations in whatever order these
stand (`Parts.perm`).
-/

set_option autoImplicit false

namespace NativeLowering

/-- A function that native code provides. -/
def Symbol.IsDeclaredFunction : Symbol → Prop
  | .item own => own.isDeclaredFunction = true
  | .ambient _ => False

theorem classItem_not_function {decl : ClassDecl} {span : Span} {item : Item}
    (h : classItem decl span = .ok item) : item.isDeclaredFunction = false := by
  unfold classItem at h
  split at h
  · cases h
  · obtain ⟨traits, -, h⟩ := Lowered.bind_eq_ok.mp h
    cases h
    rfl

/-- Whether a function repeats a declared one is a question to what its name stands for. -/
theorem Names.isOverload_iff {names : Names} {item : Item} :
    names.isOverload item = true ↔
      item.isDeclaredFunction = true ∧
        ∃ symbol, names.resolve? item.name = some symbol ∧ symbol.IsDeclaredFunction := by
  unfold isOverload function?
  rw [Bool.and_eq_true]
  refine and_congr_right fun _ => ?_
  cases hknown : names.resolve? item.name with
  | none => simp
  | some symbol =>
    cases symbol with
    | item own =>
      simp only [Option.bind_some, Symbol.function?, Option.some.injEq, exists_eq_left',
        Symbol.IsDeclaredFunction]
      exact .rfl
    | ambient source => simp [Symbol.function?, Symbol.IsDeclaredFunction]

namespace Tables

/-! ## The first round -/

section Declarations

variable {tables after : Tables}

theorem apart_value {name : String} (symbol : Symbol) :
    Apart tables { values := [(name, symbol)] } ↔ tables.values.lookup name = none := by
  rw [apart_iff, fresh_iff symbol]
  exact ⟨fun h => h.1, fun h => ⟨h, fun _ => .inr rfl, fun _ => .inr rfl⟩⟩

theorem apart_type {name : String} (symbol : Symbol) :
    Apart tables { types := [(name, symbol)] } ↔ tables.types.lookup name = none := by
  rw [apart_iff, fresh_iff symbol]
  exact ⟨fun h => h.2.1, fun h => ⟨fun _ => .inr rfl, h, fun _ => .inr rfl⟩⟩

theorem apart_both {name : String} (symbol : Symbol) :
    Apart tables { values := [(name, symbol)], types := [(name, symbol)] } ↔
      tables.values.lookup name = none ∧ tables.types.lookup name = none := by
  rw [apart_iff, fresh_iff symbol, fresh_iff symbol]
  exact ⟨fun h => ⟨h.1, h.2.1⟩, fun h => ⟨h.1, h.2, fun _ => .inr rfl⟩⟩

theorem apart_module {specifier : String} (ambient : AmbientModule) :
    Apart tables { modules := [(specifier, ambient)] } ↔
      tables.modules.lookup specifier = none := by
  rw [apart_iff, fresh_iff ambient]
  exact ⟨fun h => h.2.2, fun h => ⟨fun _ => .inr rfl, fun _ => .inr rfl, h⟩⟩

/-- What entering a class can do. -/
theorem declare_class_eq_ok {span : Span} {decl : ClassDecl} :
    declare tables (.classDecl span decl) = .ok after ↔
      ∃ own, ((classItem decl span).map fun item =>
          { values := [(item.name, .item item)], types := [(item.name, .item item)] }) = .ok own ∧
        Apart tables own ∧ after = tables.under own := by
  rw [declare_eq_ok]
  constructor
  · intro h
    cases h with
    | classDecl hitem hvalues htypes =>
      obtain ⟨hvalue, rfl⟩ := enter_eq_ok.mp hvalues
      obtain ⟨htype, rfl⟩ := enter_eq_ok.mp htypes
      refine ⟨_, Lowered.map_eq_ok.mpr ⟨_, hitem, rfl⟩, ?_, rfl⟩
      exact (apart_both _).mpr ⟨hvalue, htype⟩
  · rintro ⟨own, hown, hapart, rfl⟩
    obtain ⟨item, hitem, rfl⟩ := Lowered.map_eq_ok.mp hown
    obtain ⟨hvalue, htype⟩ := (apart_both _).mp hapart
    exact .classDecl hitem (enter_eq_ok.mpr ⟨hvalue, rfl⟩) (enter_eq_ok.mpr ⟨htype, rfl⟩)

theorem enterType_eq_ok {name : String} {symbol : Symbol} {span : Span} :
    (do
      let types ← enter tables.types name symbol span
      return { tables with types }) = .ok after ↔
      ∃ own, (.ok { types := [(name, symbol)] } : Lowered Tables) = .ok own ∧ Apart tables own ∧
        after = tables.under own := by
  simp only [Lowered.bind_eq_ok, Lowered.pure_eq_ok]
  constructor
  · rintro ⟨types, htypes, rfl⟩
    obtain ⟨htype, rfl⟩ := enter_eq_ok.mp htypes
    exact ⟨_, rfl, (apart_type symbol).mpr htype, rfl⟩
  · rintro ⟨own, hown, hapart, rfl⟩
    cases hown
    exact ⟨_, enter_eq_ok.mpr ⟨(apart_type symbol).mp hapart, rfl⟩, rfl⟩

theorem enterValue_eq_ok {name : String} {symbol : Symbol} {span : Span} :
    (do
      let values ← enter tables.values name symbol span
      return { tables with values }) = .ok after ↔
      ∃ own, (.ok { values := [(name, symbol)] } : Lowered Tables) = .ok own ∧ Apart tables own ∧
        after = tables.under own := by
  simp only [Lowered.bind_eq_ok, Lowered.pure_eq_ok]
  constructor
  · rintro ⟨values, hvalues, rfl⟩
    obtain ⟨hvalue, rfl⟩ := enter_eq_ok.mp hvalues
    exact ⟨_, rfl, (apart_value symbol).mpr hvalue, rfl⟩
  · rintro ⟨own, hown, hapart, rfl⟩
    cases hown
    exact ⟨_, enter_eq_ok.mpr ⟨(apart_value symbol).mp hapart, rfl⟩, rfl⟩

/-- An overload adds nothing to the tables, and nothing is lost: its name is known. -/
theorem overload_knows {item : Item} (h : tables.names.isOverload item = true) :
    Compatible Symbol.IsDeclaredFunction tables { values := [(item.name, .item item)] } ∧
      Knows [tables, { values := [(item.name, .item item)] }] tables := by
  obtain ⟨hdeclared, symbol, hsymbol, hsymbolDeclared⟩ := Names.isOverload_iff.mp h
  have hsingle {name : String} {found : Symbol}
      (h : [(item.name, Symbol.item item)].lookup name = some found) :
      name = item.name ∧ found = .item item :=
    (lookup_cons_cases h).resolve_right (by simp)
  refine ⟨⟨?_, fun _ => .inr rfl, fun _ => .inr rfl⟩, ⟨?_, ?_, ?_⟩⟩
  · intro name one two hone htwo
    obtain ⟨rfl, rfl⟩ := hsingle htwo
    obtain rfl : symbol = one := Option.some.inj (hsymbol.symm.trans hone)
    exact ⟨hsymbolDeclared, hdeclared⟩
  · intro name
    rw [findSome?_pair]
    cases hknown : tables.resolve? name with
    | some found => rfl
    | none =>
      cases hfound : [(item.name, Symbol.item item)].lookup name with
      | none => exact hfound.symm
      | some found =>
        obtain ⟨rfl, -⟩ := hsingle hfound
        cases hsymbol.symm.trans hknown
  · intro name
    rw [findSome?_pair]
    exact Option.or_none.symm
  · intro specifier
    rw [findSome?_pair]
    exact Option.or_none.symm

theorem declare_function_gathers (span : Span) (decl : FunctionDecl) :
    GathersAt Symbol.IsDeclaredFunction declare (.functionDecl span decl) := by
  have hown {item : Item} (hitem : functionItem decl span = .ok item) :
      declare {} (.functionDecl span decl) = .ok { values := [(item.name, .item item)] } := by
    have hfirst : (Tables.names {}).isOverload item = false := Bool.and_false _
    exact declare_eq_ok.mpr (.functionDecl hitem hfirst (enter_eq_ok.mpr ⟨rfl, rfl⟩))
  refine ⟨?_, ?_⟩
  · intro tables after hrun
    cases declare_eq_ok.mp hrun with
    | overload hitem hoverload => exact ⟨_, hown hitem, overload_knows hoverload⟩
    | @functionDecl _ _ item _ hitem hfirst hvalues =>
      obtain ⟨hnew, rfl⟩ := enter_eq_ok.mp hvalues
      have hapart := (apart_value (.item item)).mpr hnew
      exact ⟨_, hown hitem, hapart.compatible, hapart.knows⟩
  · intro tables own hrun hfits
    obtain ⟨item, hitem, -⟩ := Lowered.bind_eq_ok.mp hrun
    cases (hown hitem).symm.trans hrun
    cases hoverload : tables.names.isOverload item with
    | true => exact ⟨tables, declare_eq_ok.mpr (.overload hitem hoverload)⟩
    | false =>
      cases hknown : tables.resolve? item.name with
      | none =>
        have hvalues : enter tables.values item.name (.item item) span
            = .ok ((item.name, .item item) :: tables.values) := enter_eq_ok.mpr ⟨hknown, rfl⟩
        exact ⟨_, declare_eq_ok.mpr (.functionDecl hitem hoverload hvalues)⟩
      | some symbol =>
        -- The name is known already, so both are declared functions and this is an overload.
        have hboth := hfits.value item.name symbol (.item item) hknown List.lookup_cons_self
        have htrue : tables.names.isOverload item = true :=
          Names.isOverload_iff.mpr ⟨hboth.2, symbol, hknown, hboth.1⟩
        rw [hoverload] at htrue
        cases htrue

/-- The first round: only declared functions may be declared again. -/
theorem declare_gathers : Gathers Symbol.IsDeclaredFunction declare
  | .importDecl span decl => by
    refine GathersAt.of_fresh (.ok {}) ?_ ?_
    · intro tables after
      constructor
      · intro h
        cases h
        exact ⟨{}, rfl, (compatible_empty _ _).symm, rfl⟩
      · rintro ⟨own, hown, -, rfl⟩
        cases hown
        rfl
    · intro own hown name symbol hsymbol
      cases hown
      cases hsymbol
  | .classDecl span decl => by
    refine GathersAt.of_fresh _ (fun _ _ => declare_class_eq_ok) ?_
    intro own hown name symbol hsymbol
    obtain ⟨item, hitem, rfl⟩ := Lowered.map_eq_ok.mp hown
    obtain ⟨-, rfl⟩ := (lookup_cons_cases hsymbol).resolve_right (by simp)
    simp [Symbol.IsDeclaredFunction, classItem_not_function hitem]
  | .functionDecl span decl => declare_function_gathers span decl
  | .interfaceDecl span decl => by
    refine GathersAt.of_fresh
      (.ok { types := [(decl.name, .item (interfaceItem decl span))] }) ?_ ?_
    · exact fun _ _ => enterType_eq_ok
    · intro own hown name symbol hsymbol
      cases hown
      cases hsymbol
  | .typeAlias span name => by
    refine GathersAt.of_fresh (.ok { types := [(name, .item (aliasItem name span))] }) ?_ ?_
    · exact fun _ _ => enterType_eq_ok
    · intro own hown name symbol hsymbol
      cases hown
      cases hsymbol
  | .moduleDecl span decorators declared specifier body => by
    refine GathersAt.of_fresh ((ambientModule span decorators specifier body).map
      fun ambient => { modules := [(specifier, ambient)] }) ?_ ?_
    · intro tables after
      rw [declare_eq_ok]
      constructor
      · intro h
        cases h with
        | moduleDecl hnew hambient =>
          exact ⟨_, Lowered.map_eq_ok.mpr ⟨_, hambient, rfl⟩, (apart_module _).mpr hnew, rfl⟩
      · rintro ⟨own, hown, hapart, rfl⟩
        obtain ⟨ambient, hambient, rfl⟩ := Lowered.map_eq_ok.mp hown
        exact .moduleDecl ((apart_module ambient).mp hapart) hambient
    · intro own hown name symbol hsymbol
      obtain ⟨ambient, -, rfl⟩ := Lowered.map_eq_ok.mp hown
      cases hsymbol

end Declarations

/-! ## The second round -/

section Imports

variable {tables after : Tables}

/-- The step of the second round, with the ambient modules that the first one leaves. -/
def bindFrom (find : String → Option AmbientModule) (tables : Tables) : Decl → Lowered Tables
  | .importDecl _ decl => do
    let specifier ← decl.specifierText
    match find specifier with
    | none => return tables
    | some ambient => tables.bindClause ambient decl.specifier.span decl.clause
  | _ => .ok tables

theorem enterIf_eq_ok {α : Type} {table entered : List (String × α)} {name : String} {value : α}
    {span : Span} {entering : Bool} :
    (if entering then enter table name value span else .ok table) = .ok entered ↔
      (∀ other, table.lookup other = none ∨
        (if entering then [(name, value)] else []).lookup other = none) ∧
      entered = (if entering then [(name, value)] else []) ++ table := by
  cases entering with
  | true =>
    rw [if_pos rfl, if_pos rfl, enter_eq_ok, fresh_iff value]
    rfl
  | false =>
    rw [if_neg Bool.false_ne_true, if_neg Bool.false_ne_true]
    constructor
    · intro h
      cases h
      exact ⟨fun _ => .inr rfl, rfl⟩
    · rintro ⟨-, rfl⟩
      rfl

theorem bindItem_gathers (ambient : AmbientModule) (span : Span) :
    Gathers (fun _ => False) (bindItem ambient span) := by
  intro item
  cases hmember : ambient.member? item.name with
  | none =>
    refine GathersAt.of_fresh (failAt span (.missingExport ambient.specifier item.name))
      ?_ ?_
    · intro tables after
      simp [bindItem, hmember, failAt]
    · intro own hown
      cases hown
  | some member =>
    refine GathersAt.of_fresh (.ok
      { values := if member.kind.isValue then [(item.localName, .item member)] else []
        types := if member.kind.isType then [(item.localName, .item member)] else [] }) ?_ ?_
    · intro tables after
      simp only [bindItem_eq_ok, hmember, enterIf_eq_ok]
      constructor
      · rintro ⟨found, values, types, hfound, ⟨hvalue, rfl⟩, ⟨htype, rfl⟩, rfl⟩
        cases hfound
        exact ⟨_, rfl, apart_iff.mpr ⟨hvalue, htype, fun _ => .inr rfl⟩, rfl⟩
      · rintro ⟨own, hown, hapart, rfl⟩
        cases hown
        obtain ⟨hvalue, htype, -⟩ := apart_iff.mp hapart
        exact ⟨member, _, _, rfl, ⟨hvalue, rfl⟩, ⟨htype, rfl⟩, rfl⟩
    · exact fun _ _ _ _ _ hfalse => hfalse

theorem bindFrom_gathers (find : String → Option AmbientModule) :
    Gathers (fun _ => False) (bindFrom find)
  | .importDecl span decl => by
    -- What is bound depends on the import alone: nothing if the module is unknown or no clause is given,
    -- one value for the whole module, or the named members one by one.
    cases hspecifier : decl.specifierText with
    | error error =>
      refine GathersAt.of_fresh (.error error) ?_ ?_
      · intro tables after
        simp only [bindFrom, hspecifier]
        constructor
        · intro h
          cases h
        · rintro ⟨own, hown, -⟩
          cases hown
      · intro own hown
        cases hown
    | ok specifier =>
      cases hfound : find specifier with
      | none =>
        refine GathersAt.of_id fun tables => ?_
        simp only [bindFrom, hspecifier, Lowered.bind_eq_ok]
        exact ⟨specifier, rfl, by rw [hfound]; rfl⟩
      | some ambient =>
        have hbind (tables : Tables) : bindFrom find tables (.importDecl span decl) =
            tables.bindClause ambient decl.specifier.span decl.clause := by
          simp only [bindFrom, hspecifier]
          exact congrArg (fun found => match found with
            | none => pure tables
            | some ambient => tables.bindClause ambient decl.specifier.span decl.clause) hfound
        match hclause : decl.clause with
        | none =>
          refine GathersAt.of_id fun tables => ?_
          rw [hbind, hclause]
          rfl
        | some (.whole name) =>
          refine GathersAt.of_fresh (.ok { values := [(name, .ambient ambient)] }) ?_ ?_
          · intro tables after
            rw [hbind, hclause]
            exact enterValue_eq_ok
          · exact fun _ _ _ _ _ hfalse => hfalse
        | some (.named items) =>
          refine ((bindItem_gathers ambient decl.specifier.span).foldlM items).congr fun tables => ?_
          rw [hbind, hclause]
          rfl
  | .classDecl .. | .functionDecl .. | .interfaceDecl .. | .typeAlias .. | .moduleDecl .. =>
    GathersAt.of_id fun _ => rfl

theorem bindFrom_modules {find : String → Option AmbientModule} {decl : Decl}
    (h : bindFrom find tables decl = .ok after) : after.modules = tables.modules := by
  have hitems (ambient : AmbientModule) (span : Span) (items : List ImportItem)
      (h : items.foldlM (bindItem ambient span) tables = .ok after) :
      after.modules = tables.modules := by
    have hkeeps (state : Tables) (item : ImportItem) (next : Tables) (_ : item ∈ items)
        (hkept : state.modules = tables.modules)
        (hstep : bindItem ambient span state item = .ok next) : next.modules = tables.modules := by
      obtain ⟨member, values, types, -, -, -, rfl⟩ := bindItem_cases hstep
      exact hkept
    exact foldlM_keeps hkeeps rfl h
  cases decl with
  | importDecl span decl =>
    obtain ⟨specifier, -, h⟩ := Lowered.bind_eq_ok.mp h
    split at h
    · cases h
      rfl
    · rename_i ambient _
      unfold bindClause at h
      split at h
      · cases h
        rfl
      · obtain ⟨values, -, h⟩ := Lowered.bind_eq_ok.mp h
        cases h
        rfl
      · exact hitems ambient _ _ h
  | _ =>
    cases h
    rfl

/-- The ambient modules stay what they are throughout the second round. -/
theorem foldlM_bindImport (decls : List Decl) (tables : Tables) :
    decls.foldlM bindImport tables = decls.foldlM (bindFrom tables.module?) tables := by
  have hround : ∀ {decls : List Decl} {now : Tables}, now.modules = tables.modules →
      decls.foldlM bindImport now = decls.foldlM (bindFrom tables.module?) now := by
    intro decls
    induction decls with
    | nil => exact fun _ => rfl
    | cons decl rest ih =>
      intro now hnow
      have hstep : bindImport now decl = bindFrom tables.module? now decl := by
        have hsame : now.module? = tables.module? := by
          funext specifier
          rw [module?, module?, hnow]
        rw [← hsame]
        cases decl <;> rfl
      rw [List.foldlM_cons, List.foldlM_cons, hstep]
      cases hafter : bindFrom tables.module? now decl with
      | error error => rfl
      | ok after => exact ih ((bindFrom_modules hafter).trans hnow)
  exact hround rfl

end Imports

/-! ## All sources -/

/-- The ambient module of a specifier, in the first part that has one. -/
def ambientOf (owns : List Tables) (specifier : String) : Option AmbientModule :=
  owns.findSome? fun own => own.module? specifier

/-- What the declarations bring in by themselves, and what their imports bring in. -/
structure Parts (decls : List Decl) (owns imports : List Tables) : Prop where
  declared : Brings declare decls owns
  imported : Brings (bindFrom (ambientOf owns)) decls imports
  compatible : owns.Pairwise (Compatible Symbol.IsDeclaredFunction)
  apart : imports.Pairwise Apart
  cross : ∀ own ∈ owns, ∀ part ∈ imports, Apart own part

section Sources

variable {decls decls' : List Decl} {owns imports : List Tables} {tables : Tables}

/-- Tables are made of parts. -/
theorem build_parts (h : build decls = .ok tables) :
    ∃ owns imports, Parts decls owns imports ∧ Knows (owns ++ imports) tables := by
  obtain ⟨first, hfirst, hsecond⟩ := Lowered.bind_eq_ok.mp h
  rw [foldlM_bindImport] at hsecond
  obtain ⟨owns, howns, -, hcompatible, hknown⟩ := declare_gathers.round hfirst
  obtain ⟨imports, himports, hcross, hapart, htables⟩ := (bindFrom_gathers _).round hsecond
  have hfind : first.module? = ambientOf owns := funext hknown.of_empty.module
  rw [hfind] at himports
  refine ⟨owns, imports, ⟨howns, himports, hcompatible, hapart, ?_⟩,
    hknown.of_empty.trans htables⟩
  intro own hown part hpart
  exact hknown.of_empty.apart_iff.mp (hcross part hpart) own hown

/-- Sources with parts have tables. -/
theorem Parts.build (h : Parts decls owns imports) :
    ∃ tables, Tables.build decls = .ok tables ∧ Knows (owns ++ imports) tables := by
  obtain ⟨first, hfirst, hknown⟩ := declare_gathers.complete_round {} h.declared
    (fun part _ => compatible_empty _ part) h.compatible
  have hfind : first.module? = ambientOf owns := funext hknown.of_empty.module
  have himported := h.imported
  rw [← hfind] at himported
  obtain ⟨tables, htables, htablesKnown⟩ := (bindFrom_gathers _).complete_round _ himported
    (fun part hpart => hknown.of_empty.apart_iff.mpr fun own hown => h.cross own hown part hpart)
    h.apart
  rw [← foldlM_bindImport] at htables
  exact ⟨tables, Lowered.bind_eq_ok.mpr ⟨first, hfirst, htables⟩,
    hknown.of_empty.trans htablesKnown⟩

/-- The parts go with the declarations, in whatever order these stand. -/
theorem Parts.perm (h : Parts decls owns imports) (hperm : decls.Perm decls') :
    ∃ owns' imports', owns.Perm owns' ∧ imports.Perm imports' ∧ Parts decls' owns' imports' := by
  obtain ⟨owns', hdeclared, howns⟩ := List.perm_comp_forall₂ hperm.symm h.declared
  obtain ⟨imports', himported, himports⟩ := List.perm_comp_forall₂ hperm.symm h.imported
  have hmodules : ambientOf owns' = ambientOf owns := by
    funext specifier
    refine findSome?_perm ?_ howns.symm
    exact h.compatible.imp fun hpair => hpair.module specifier
  rw [← hmodules] at himported
  refine ⟨owns', imports', howns.symm, himports.symm, hdeclared, himported, ?_, ?_, ?_⟩
  · exact (howns.pairwise_iff fun {_ _} => Compatible.symm).mpr h.compatible
  · exact (himports.pairwise_iff fun {_ _} => Compatible.symm).mpr h.apart
  · intro own hown part hpart
    exact h.cross own (howns.mem_iff.mp hown) part (himports.mem_iff.mp hpart)

end Sources

end Tables

end NativeLowering
