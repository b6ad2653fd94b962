import NativeLowering.Proofs.Model.Rounds
import NativeLowering.Syntax.Build

/-!
# Every declaration is found again

What a model knows under the name of a declaration is what that declaration declares. An overload of
a declared function is the exception: it adds nothing, and the earlier declaration is found. At the
top level this is so for every declaration.

The body of an ambient module is different. After a declared function everything of its name is
passed over, whatever it is, so a class may go missing that way. A declaration of a body is kept
exactly if it has no earlier one of its name or is itself a declared function (`build_keeps`).
-/

set_option autoImplicit false

namespace NativeLowering

/-! ## What is found for a declaration -/

/-- The item that a declaration declares at the top level. -/
def topItem : Decl → Lowered Item
  | .classDecl span decl => classItem decl span
  | .functionDecl span decl => functionItem decl span
  | .interfaceDecl span decl => .ok (interfaceItem decl span)
  | .typeAlias span name => .ok (aliasItem name span)
  | .importDecl span _ | .moduleDecl span .. => failAt span .nestedModule

/-- Whether the declaration declares a class, a function, an interface or a type alias. -/
def Decl.declaresItem : Decl → Bool
  | .importDecl .. | .moduleDecl .. => false
  | _ => true

/-- What is found for an item is of its kind, and it is the item itself. Only for a declared
function it may be an earlier one of its name. -/
structure Item.StandsFor (itemOf : Decl → Lowered Item) (before : List Decl) (item found : Item) :
    Prop where
  kind : found.kind = item.kind
  source : found = item ∨
    item.isDeclaredFunction = true ∧ found.isDeclaredFunction = true ∧ found.name = item.name ∧
      ∃ earlier ∈ before, itemOf earlier = .ok found

theorem Item.StandsFor.self {itemOf : Decl → Lowered Item} {before : List Decl} (item : Item) :
    item.StandsFor itemOf before item := ⟨rfl, .inl rfl⟩

theorem kind_of_isDeclaredFunction {item : Item} (h : item.isDeclaredFunction = true) :
    item.kind = .functionKind := by
  obtain ⟨name, span, info⟩ := item
  cases info with
  | functionInfo info => rfl
  | _ => cases h

/-- A declared function may stand for a later one. -/
theorem Item.StandsFor.overload {itemOf : Decl → Lowered Item} {before : List Decl}
    {item found : Item} {earlier : Decl} (hitem : item.isDeclaredFunction = true)
    (hfound : found.isDeclaredFunction = true) (hname : found.name = item.name)
    (hearlier : earlier ∈ before) (hsource : itemOf earlier = .ok found) :
    item.StandsFor itemOf before found := by
  refine ⟨?_, .inr ⟨hitem, hfound, hname, earlier, hearlier, hsource⟩⟩
  rw [kind_of_isDeclaredFunction hitem, kind_of_isDeclaredFunction hfound]

theorem classItem_kind {decl : ClassDecl} {span : Span} {item : Item}
    (h : classItem decl span = .ok item) : item.kind = .classKind := by
  unfold classItem at h
  split at h
  · cases h
  · obtain ⟨traits, -, h⟩ := Lowered.bind_eq_ok.mp h
    cases h
    rfl

theorem functionItem_kind {decl : FunctionDecl} {span : Span} {item : Item}
    (h : functionItem decl span = .ok item) : item.kind = .functionKind := by
  unfold functionItem at h
  split at h
  · cases h
  · obtain ⟨traits, -, h⟩ := Lowered.bind_eq_ok.mp h
    cases h
    rfl

theorem topItem_name {decl : Decl} {item : Item} (h : topItem decl = .ok item) :
    decl.name? = some item.name := by
  cases decl with
  | classDecl span decl => exact classItem_name h
  | functionDecl span decl => exact functionItem_name h
  | interfaceDecl | typeAlias =>
    cases h
    rfl
  | importDecl | moduleDecl => cases h

theorem memberItem_name {decl : Decl} {item : Item} (h : memberItem decl = .ok item) :
    decl.name? = some item.name := by
  cases decl with
  | classDecl span decl => exact classItem_name h
  | functionDecl span decl => exact functionItem_name h
  | interfaceDecl | typeAlias =>
    cases h
    rfl
  | importDecl | moduleDecl => cases h

/-! ## The body of an ambient module -/

/-- The item of a declaration in a body, if it has the name. -/
def memberNamed (name : String) (decl : Decl) : Option Item :=
  (memberItem decl).toOption.filter fun item => item.name == name

theorem memberNamed_eq_some {name : String} {decl : Decl} {item : Item} :
    memberNamed name decl = some item ↔ memberItem decl = .ok item ∧ item.name = name := by
  rw [memberNamed, Option.filter_eq_some_iff, Lowered.toOption_eq_some, beq_iff_eq]

section Bodies

variable {specifier : String} {members after : List (String × Item)}

/-- Entering a declaration that is passed over needs a declared function of its name. -/
theorem exportDecl_cases {decl : Decl} (h : exportDecl specifier members decl = .ok after) :
    ∃ item, memberItem decl = .ok item ∧
      ((members.lookup item.name = none ∧ after = (item.name, item) :: members) ∨
        ∃ existing, members.lookup item.name = some existing ∧
          existing.isDeclaredFunction = true ∧ after = members) := by
  obtain ⟨item, hitem, h⟩ := Lowered.bind_eq_ok.mp h
  refine ⟨item, hitem, ?_⟩
  split at h
  next hnew =>
    cases h
    exact .inl ⟨hnew, rfl⟩
  next existing hexisting =>
    split at h
    next hdeclared =>
      cases h
      exact .inr ⟨existing, hexisting, hdeclared, rfl⟩
    next => cases h

/-- Whatever stands behind, a name keeps the first item of the body that has it. -/
theorem exportDecl_lookup {decl : Decl} (h : exportDecl specifier members decl = .ok after)
    (name : String) : after.lookup name = (members.lookup name).or (memberNamed name decl) := by
  obtain ⟨item, hitem, hcase⟩ := exportDecl_cases h
  have hnamed : memberNamed name decl = if item.name = name then some item else none := by
    simp only [memberNamed, hitem, Except.toOption, Option.filter, beq_iff_eq]
  rw [hnamed]
  rcases hcase with ⟨hnew, rfl⟩ | ⟨existing, hexisting, -, rfl⟩
  · rw [List.lookup_cons]
    by_cases hname : item.name = name
    · subst hname
      simp [hnew]
    · rw [beq_false_of_ne (Ne.symm hname), if_neg hname, Option.or_none]
  · by_cases hname : item.name = name
    · subst hname
      simp [hexisting]
    · rw [if_neg hname, Option.or_none]

theorem export_lookup {decls : List Decl} (h : decls.foldlM (exportDecl specifier) members =
    .ok after) (name : String) :
    after.lookup name = (members.lookup name).or (decls.findSome? (memberNamed name)) := by
  induction decls generalizing members with
  | nil =>
    obtain rfl := Lowered.pure_eq_ok.mp h
    exact Option.or_none.symm
  | cons decl rest ih =>
    obtain ⟨between, hdecl, hrest⟩ := Lowered.bind_eq_ok.mp (List.foldlM_cons.symm.trans h)
    rw [ih hrest, exportDecl_lookup hdecl, Option.or_assoc, List.findSome?_cons]
    cases memberNamed name decl <;> rfl

/-- A declaration of a body is found again exactly if it is the first of its name or a declared
function. -/
theorem export_keeps {body : List Decl} (h : body.foldlM (exportDecl specifier) [] = .ok members)
    {before behind : List Decl} {decl : Decl} (hbody : body = before ++ decl :: behind) :
    ∃ item found, memberItem decl = .ok item ∧ members.lookup item.name = some found ∧
      (item.StandsFor memberItem before found ↔
        item.isDeclaredFunction = true ∨ ∀ earlier ∈ before, earlier.name? ≠ some item.name) := by
  subst hbody
  rw [List.foldlM_append, Lowered.bind_eq_ok] at h
  obtain ⟨between, hbefore, h⟩ := h
  obtain ⟨next, hdecl, hbehind⟩ := Lowered.bind_eq_ok.mp (List.foldlM_cons.symm.trans h)
  obtain ⟨item, hitem, hcase⟩ := exportDecl_cases hdecl
  have hbetween : between.lookup item.name = before.findSome? (memberNamed item.name) :=
    export_lookup hbefore item.name
  have hfound : members.lookup item.name =
      (between.lookup item.name).or (some item) := by
    rw [export_lookup hbehind, exportDecl_lookup hdecl, memberNamed_eq_some.mpr ⟨hitem, rfl⟩]
    cases between.lookup item.name <;> rfl
  -- Either the name is new, so no declaration in front has it, or it is that of a declared function.
  rcases hcase with ⟨hnew, -⟩ | ⟨existing, hexisting, hdeclared, -⟩
  · refine ⟨item, item, hitem, by rw [hfound, hnew]; rfl, ?_⟩
    have hfirst : ∀ earlier ∈ before, earlier.name? ≠ some item.name := by
      intro earlier hearlier hname
      obtain ⟨_, _, _, hstep, -⟩ := foldlM_mem hbefore hearlier
      obtain ⟨other, hother, -⟩ := exportDecl_cases hstep
      have hsame : other.name = item.name :=
        Option.some.inj ((memberItem_name hother).symm.trans hname)
      rw [hbetween, List.findSome?_eq_none_iff] at hnew
      cases (hnew earlier hearlier).symm.trans (memberNamed_eq_some.mpr ⟨hother, hsame⟩)
    exact ⟨fun _ => .inr hfirst, fun _ => .self item⟩
  · refine ⟨item, existing, hitem, by rw [hfound, hexisting]; rfl, ?_⟩
    obtain ⟨earlier, hearlier, hnamed⟩ :=
      List.exists_of_findSome?_eq_some (hbetween.symm.trans hexisting)
    obtain ⟨hsource, hname⟩ := memberNamed_eq_some.mp hnamed
    constructor
    · rintro ⟨-, rfl | ⟨hitemDeclared, -⟩⟩
      · exact .inl hdeclared
      · exact .inl hitemDeclared
    · rintro (hitemDeclared | hfirst)
      · exact .overload hitemDeclared hdeclared hname hearlier hsource
      · exact (hfirst earlier hearlier (hname ▸ memberItem_name hsource)).elim

end Bodies

/-! ## The top level -/

/-- The declaration is found again in each name space that its kind lives in. -/
def Names.Keeps (names : Names) (before : List Decl) (decl : Decl) : Prop :=
  ∃ item, topItem decl = .ok item ∧ decl.name? = some item.name ∧
    (item.kind.isValue = true → ∃ found, names.resolve? item.name = some (.item found) ∧
      item.StandsFor topItem before found) ∧
    (item.kind.isType = true → names.resolveType? item.name = some (.item item))

namespace Tables

/-- What a declaration brings in by itself: its item, in each name space that its kind lives in. -/
theorem declare_topItem {decl : Decl} {own : Tables} (hdecl : decl.declaresItem = true)
    (hown : declare {} decl = .ok own) :
    ∃ item, topItem decl = .ok item ∧
      own.values = (if item.kind.isValue then [(item.name, .item item)] else []) ∧
      own.types = (if item.kind.isType then [(item.name, .item item)] else []) := by
  cases declare_eq_ok.mp hown with
  | classDecl hitem hvalues htypes =>
    obtain ⟨-, rfl⟩ := enter_eq_ok.mp hvalues
    obtain ⟨-, rfl⟩ := enter_eq_ok.mp htypes
    refine ⟨_, hitem, ?_⟩
    rw [classItem_kind hitem]
    exact ⟨rfl, rfl⟩
  | overload hitem hoverload =>
    -- Nothing is known to the empty tables that could be overloaded.
    obtain ⟨-, symbol, hsymbol, -⟩ := Names.isOverload_iff.mp hoverload
    cases hsymbol
  | functionDecl hitem hfirst hvalues =>
    obtain ⟨-, rfl⟩ := enter_eq_ok.mp hvalues
    refine ⟨_, hitem, ?_⟩
    rw [functionItem_kind hitem]
    exact ⟨rfl, rfl⟩
  | interfaceDecl htypes | typeAlias htypes =>
    obtain ⟨-, rfl⟩ := enter_eq_ok.mp htypes
    exact ⟨_, rfl, rfl, rfl⟩
  | importDecl | moduleDecl => cases hdecl

/-- A declaration brings in no value but its item. -/
theorem declare_value {decl : Decl} {own : Tables} {name : String} {symbol : Symbol}
    (hown : declare {} decl = .ok own) (hsymbol : own.resolve? name = some symbol) :
    ∃ item, topItem decl = .ok item ∧ item.name = name ∧ symbol = .item item := by
  cases hdecl : decl.declaresItem with
  | true =>
    obtain ⟨item, hitem, hvalues, -⟩ := declare_topItem hdecl hown
    unfold resolve? at hsymbol
    rw [hvalues] at hsymbol
    split at hsymbol
    · obtain ⟨rfl, rfl⟩ := (lookup_cons_cases hsymbol).resolve_right (by simp)
      exact ⟨item, hitem, rfl, rfl⟩
    · cases hsymbol
  | false =>
    cases declare_eq_ok.mp hown with
    | importDecl | moduleDecl => cases hsymbol
    | _ => cases hdecl

section Sources

variable {decls before behind : List Decl} {owns imports : List Tables} {tables : Tables}
  {decl : Decl}

theorem Parts.keeps (hparts : Parts decls owns imports) (hknown : Knows (owns ++ imports) tables)
    (hdecls : decls = before ++ decl :: behind) (hdecl : decl.declaresItem = true) :
    tables.names.Keeps before decl := by
  have hbrings := hparts.declared
  rw [hdecls] at hbrings
  obtain ⟨early, own, late, rfl, hearly, hown⟩ := hbrings.split
  obtain ⟨item, hitem, hvalues, htypes⟩ := declare_topItem hdecl hown
  have hfits : ∀ part ∈ early, Compatible Symbol.IsDeclaredFunction part own := fun part hpart =>
    (List.pairwise_append.mp hparts.compatible).2.2 part hpart own (by simp)
  refine ⟨item, hitem, topItem_name hitem, ?_, ?_⟩
  · intro hkind
    have hvalue : own.resolve? item.name = some (.item item) := by
      simp [resolve?, hvalues, hkind]
    have hmodel := hknown.value item.name
    rw [List.append_assoc, List.findSome?_append, List.cons_append, List.findSome?_cons,
      hvalue] at hmodel
    cases hfirst : early.findSome? fun part => part.resolve? item.name with
    | none =>
      rw [hfirst] at hmodel
      exact ⟨item, hmodel, .self item⟩
    | some symbol =>
      -- An earlier declaration has the name, which only declared functions share.
      rw [hfirst] at hmodel
      obtain ⟨part, hpart, hsymbol⟩ := List.exists_of_findSome?_eq_some hfirst
      obtain ⟨hdeclared, hitemDeclared⟩ := (hfits part hpart).value _ _ _ hsymbol hvalue
      obtain ⟨earlier, hmem, hstep⟩ := Brings.exists_of_mem hearly hpart
      obtain ⟨found, hfound, hname, rfl⟩ := declare_value hstep hsymbol
      exact ⟨found, hmodel, .overload hitemDeclared hdeclared hname hmem hfound⟩
  · intro hkind
    have htype : own.resolveType? item.name = some (.item item) := by
      simp [resolveType?, htypes, hkind]
    refine (hknown.type item.name).trans ?_
    rw [List.append_assoc, List.findSome?_append, List.cons_append,
      List.findSome?_cons, htype]
    have hfirst : (early.findSome? fun part => part.resolveType? item.name) = none := by
      refine List.findSome?_eq_none_iff.mpr fun part hpart => ?_
      exact ((hfits part hpart).type item.name).resolve_right (by simp [htype])
    rw [hfirst]
    rfl

theorem Parts.module? (hparts : Parts decls owns imports) (hknown : Knows (owns ++ imports) tables)
    {span : Span} {decorators : List Decorator} {declared : Bool} {specifier : String}
    {body : List Decl} (hdecl : .moduleDecl span decorators declared specifier body ∈ decls) :
    ∃ ambient, ambientModule span decorators specifier body = .ok ambient ∧
      tables.module? specifier = some ambient := by
  obtain ⟨before, behind, hdecls⟩ := List.append_of_mem hdecl
  have hbrings := hparts.declared
  rw [hdecls] at hbrings
  obtain ⟨early, own, late, rfl, -, hown⟩ := hbrings.split
  obtain ⟨ambient, hambient, hown⟩ := Lowered.bind_eq_ok.mp hown
  cases hown
  refine ⟨ambient, hambient, ?_⟩
  rw [hknown.module, List.append_assoc, List.findSome?_append]
  have hfirst : (early.findSome? fun part => part.module? specifier) = none := by
    refine List.findSome?_eq_none_iff.mpr fun part hpart => ?_
    have hfits := (List.pairwise_append.mp hparts.compatible).2.2 part hpart _ List.mem_cons_self
    exact (hfits.module specifier).resolve_right (by simp [Tables.module?])
  rw [hfirst]
  simp [Tables.module?]

end Sources

end Tables

namespace Model

/-- Every declaration of the sources is found again. The body of an ambient module keeps those that
are the first of their name, and declared functions. -/
theorem build_keeps {program : Program} {preludes : List Program} {model : TypedModel}
    (h : build program preludes = .ok model) :
    (∀ before decl behind, sources program preludes = before ++ decl :: behind →
      decl.declaresItem = true → model.Keeps before decl) ∧
    ∀ span decorators declared specifier body,
      .moduleDecl span decorators declared specifier body ∈ sources program preludes →
      ∃ ambient, model.module? specifier = some ambient ∧
        ∀ before decl behind, body = before ++ decl :: behind →
          ∃ item found, memberItem decl = .ok item ∧ ambient.member? item.name = some found ∧
            (item.StandsFor memberItem before found ↔ item.isDeclaredFunction = true ∨
              ∀ earlier ∈ before, earlier.name? ≠ some item.name) := by
  obtain ⟨tables, hbuild, rfl⟩ := build_eq_ok.mp h
  obtain ⟨owns, imports, hparts, hknown⟩ := Tables.build_parts hbuild
  refine ⟨fun before decl behind hdecls hdecl => hparts.keeps hknown hdecls hdecl, ?_⟩
  intro span decorators declared specifier body hdecl
  obtain ⟨ambient, hambient, hfound⟩ := hparts.module? hknown hdecl
  refine ⟨ambient, hfound, fun before decl behind hbody => ?_⟩
  simp only [ambientModule, Lowered.bind_eq_ok, Lowered.pure_eq_ok] at hambient
  obtain ⟨traits, -, members, hmembers, rfl⟩ := hambient
  exact export_keeps hmembers hbody

section Canvas

open Build

/-- A function of the runtime with an overload. -/
def overloadedPrint : List Decl :=
  [declaredFunction "print" [] void, declaredFunction "print" [param "text" (keyword .string)] void]

/-- The body of a module, a class and a function. -/
def drawingBody : List Decl := [declared (classOf "Canvas" []), declaredFunction "draw" [] void]

theorem build_keeps_drawing :
    ∃ model, build (program [moduleOf "gfx" drawingBody]) [program overloadedPrint] = .ok model ∧
      (∀ before decl behind, overloadedPrint ++ [moduleOf "gfx" drawingBody] =
        before ++ decl :: behind → decl.declaresItem = true → model.Keeps before decl) ∧
      ∃ ambient found, model.module? "gfx" = some ambient ∧
        ambient.member? "Canvas" = some found ∧ found.kind = .classKind := by
  obtain ⟨model, hmodel⟩ : ∃ model,
      build (program [moduleOf "gfx" drawingBody]) [program overloadedPrint] = .ok model :=
    ⟨_, rfl⟩
  obtain ⟨htop, hmodules⟩ := build_keeps hmodel
  refine ⟨model, hmodel, htop, ?_⟩
  have hmem : moduleOf "gfx" drawingBody ∈
      sources (program [moduleOf "gfx" drawingBody]) [program overloadedPrint] := by
    simp [sources, program]
  obtain ⟨ambient, hambient, hbody⟩ := hmodules {} [] true "gfx" drawingBody hmem
  obtain ⟨item, found, hitem, hfound, hkept⟩ := hbody [] _ _ rfl
  cases hitem
  have hfirst := hkept.mpr (.inr (by simp))
  exact ⟨ambient, found, hambient, hfound, hfirst.kind⟩

/-- A function and a class of the same name. -/
def canvasFunction : Decl := declaredFunction "Canvas" [] void

/-- The class of that name. -/
def canvasClass : Decl := declared (classOf "Canvas" [])

/-- In the body of a module a class is passed over after a declared function of its name, and the
function is found for it. At the top level the two do not go together. -/
theorem canvasClass_dropped :
    (∃ model ambient item found,
      build (program [moduleOf "gfx" [canvasFunction, canvasClass]]) [] = .ok model ∧
        model.module? "gfx" = some ambient ∧ memberItem canvasClass = .ok item ∧
        ambient.member? item.name = some found ∧ found.kind ≠ item.kind ∧
        ¬ item.StandsFor memberItem [canvasFunction] found) ∧
    (build (program [canvasFunction, canvasClass]) []).toOption.isNone := by
  refine ⟨⟨_, _, _, _, rfl, rfl, rfl, rfl, ?_, ?_⟩, ?_⟩
  · simp [Item.kind]
  · rintro ⟨hkind, -⟩
    cases hkind
  · decide +kernel

end Canvas

end Model

end NativeLowering
