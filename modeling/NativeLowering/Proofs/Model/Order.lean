import NativeLowering.Proofs.Model.Rounds
import NativeLowering.Syntax.Build

/-!
# The order of declarations

A model is made of parts, and the parts do not depend on where their declarations stand. So it does
not matter in which order a source declares its names, nor in which order the preludes are given:
either every order has a model or none has (`build_perm`). The models say the same about every name,
except where a function is declared more than once: of its overloads the first is found.
-/

set_option autoImplicit false

namespace NativeLowering

/-- The name of a declared function. -/
def Decl.declaredFunction? : Decl → Option String
  | .functionDecl _ decl => if decl.declared then decl.name else none
  | _ => none

namespace Tables

/-! ## Without overloads -/

section Overloads

variable {decls : List Decl} {owns : List Tables}

theorem declare_declaredFunction {decl : Decl} {own : Tables} {name : String} {symbol : Symbol}
    (hown : declare {} decl = .ok own) (hsymbol : own.resolve? name = some symbol)
    (hdeclared : symbol.IsDeclaredFunction) : decl.declaredFunction? = some name := by
  cases declare_eq_ok.mp hown with
  | @functionDecl span decl _ _ hitem hfirst hvalues =>
    obtain ⟨-, rfl⟩ := enter_eq_ok.mp hvalues
    obtain ⟨rfl, rfl⟩ := (lookup_cons_cases hsymbol).resolve_right (by simp)
    unfold functionItem at hitem
    split at hitem
    · cases hitem
    · rename_i found hname
      obtain ⟨traits, -, hitem⟩ := Lowered.bind_eq_ok.mp hitem
      cases hitem
      have hflag : decl.declared = true := hdeclared
      simp [Decl.declaredFunction?, hflag, hname]
  | classDecl hitem hvalues htypes =>
    obtain ⟨-, rfl⟩ := enter_eq_ok.mp hvalues
    obtain ⟨-, rfl⟩ := (lookup_cons_cases hsymbol).resolve_right (by simp)
    cases (classItem_not_function hitem).symm.trans hdeclared
  | _ => cases hsymbol

/-- If every declared function has a name of its own, no two declarations share a name. -/
theorem apart_of_nodup (hbrings : Brings declare decls owns)
    (hcompatible : owns.Pairwise (Compatible Symbol.IsDeclaredFunction))
    (hnodup : (decls.filterMap Decl.declaredFunction?).Nodup) : owns.Pairwise Apart := by
  induction hbrings with
  | nil => exact .nil
  | @cons decl own decls owns hown hbrings ih =>
    obtain ⟨hfirst, hcompatible⟩ := List.pairwise_cons.mp hcompatible
    have hrest : (decls.filterMap Decl.declaredFunction?).Nodup := by
      rw [List.filterMap_cons] at hnodup
      split at hnodup
      · exact hnodup
      · exact (List.nodup_cons.mp hnodup).2
    refine List.pairwise_cons.mpr ⟨?_, ih hcompatible hrest⟩
    intro other hother
    refine ⟨?_, (hfirst other hother).type, (hfirst other hother).module⟩
    intro name one two hone htwo
    exfalso
    obtain ⟨honeDeclared, htwoDeclared⟩ := (hfirst other hother).value name one two hone htwo
    obtain ⟨decl', hdecl', hother⟩ := Brings.exists_of_mem hbrings hother
    have hname := declare_declaredFunction hown hone honeDeclared
    have hname' := declare_declaredFunction hother htwo htwoDeclared
    rw [List.filterMap_cons, hname] at hnodup
    exact (List.nodup_cons.mp hnodup).1 (List.mem_filterMap.mpr ⟨decl', hdecl', hname'⟩)

end Overloads

end Tables

/-! ## Any order -/

/-- Both give the same answer to every question for a name. -/
structure Names.SameAnswers (names names' : Names) : Prop where
  values : ∀ name, names'.resolve? name = names.resolve? name
  types : ∀ name, names'.resolveType? name = names.resolveType? name
  modules : ∀ specifier, names'.module? specifier = names.module? specifier
  classes : ∀ name, names'.class? name = names.class? name

theorem Tables.Knows.sameAnswers {parts parts' : List Tables} {tables tables' : Tables}
    (h : Knows parts tables) (h' : Knows parts' tables') (hperm : parts.Perm parts')
    (hparts : parts.Pairwise Apart) : Names.SameAnswers tables.names tables'.names := by
  have hpairs := hparts.imp fun hpair => Tables.apart_iff.mp hpair
  have htype (name : String) : tables'.resolveType? name = tables.resolveType? name := by
    rw [h.type, h'.type]
    exact findSome?_perm (hpairs.imp fun hpair => hpair.2.1 name) hperm
  have htypes : tables'.names.resolveType? = tables.names.resolveType? := funext htype
  refine ⟨fun name => ?_, htype, fun specifier => ?_, fun name => ?_⟩
  · refine (h'.value name).trans (Eq.trans ?_ (h.value name).symm)
    exact findSome?_perm (hpairs.imp fun hpair => hpair.1 name) hperm
  · refine (h'.module specifier).trans (Eq.trans ?_ (h.module specifier).symm)
    exact findSome?_perm (hpairs.imp fun hpair => hpair.2.2 specifier) hperm
  · rw [Names.class?, Names.class?, htypes]

namespace Model

section Orders

variable {program program' : Program} {preludes preludes' : List Program}

theorem build_of_perm (h : (sources program preludes).Perm (sources program' preludes'))
    (hbuild : ∃ model, build program preludes = .ok model) :
    ∃ model, build program' preludes' = .ok model := by
  obtain ⟨model, hmodel⟩ := hbuild
  obtain ⟨tables, htables, -⟩ := build_eq_ok.mp hmodel
  obtain ⟨owns, imports, hparts, -⟩ := Tables.build_parts htables
  obtain ⟨owns', imports', -, -, hparts'⟩ := hparts.perm h
  obtain ⟨tables', htables', -⟩ := hparts'.build
  exact ⟨tables'.names.model, build_eq_ok.mpr ⟨tables', htables', rfl⟩⟩

/-- Whether there is a model depends only on what is declared in the sources, and what it says on
the order of overloads at most. -/
theorem build_perm (h : (sources program preludes).Perm (sources program' preludes')) :
    ((∃ model, build program preludes = .ok model) ↔
      ∃ model, build program' preludes' = .ok model) ∧
    (((sources program preludes).filterMap Decl.declaredFunction?).Nodup →
      ∀ model model', build program preludes = .ok model → build program' preludes' = .ok model' →
        Names.SameAnswers model model') := by
  refine ⟨⟨build_of_perm h, build_of_perm h.symm⟩, ?_⟩
  intro hnodup model model' hmodel hmodel'
  obtain ⟨tables, htables, rfl⟩ := build_eq_ok.mp hmodel
  obtain ⟨tables', htables', rfl⟩ := build_eq_ok.mp hmodel'
  obtain ⟨owns, imports, hparts, hknown⟩ := Tables.build_parts htables
  obtain ⟨owns', imports', howns, himports, hparts'⟩ := hparts.perm h
  obtain ⟨built, hbuilt, hknown'⟩ := hparts'.build
  obtain rfl : built = tables' := Except.ok.inj (hbuilt.symm.trans htables')
  refine hknown.sameAnswers hknown' (howns.append himports) ?_
  exact List.pairwise_append.mpr
    ⟨Tables.apart_of_nodup hparts.declared hparts.compatible hnodup, hparts.apart, hparts.cross⟩

/-- The second sources are the first ones with the preludes in another order, and each source with
its declarations in another order. -/
structure Reordered (program : Program) (preludes : List Program) (program' : Program)
    (preludes' : List Program) : Prop where
  program : program.decls.Perm program'.decls
  preludes : ∃ between, preludes.Perm between ∧
    List.Forall₂ (fun source source' => source.decls.Perm source'.decls) between preludes'

theorem Reordered.sources (h : Reordered program preludes program' preludes') :
    (sources program preludes).Perm (sources program' preludes') := by
  obtain ⟨between, hbetween, hsources⟩ := h.preludes
  have hdecls : (between.flatMap Program.decls).Perm (preludes'.flatMap Program.decls) := by
    clear hbetween h
    induction hsources with
    | nil => exact .refl _
    | cons hsource _ ih => exact hsource.append ih
  simp only [Model.sources, List.flatMap_append, List.flatMap_singleton]
  exact ((hbetween.flatMap_right _).trans hdecls).append h.program

/-- Building a model does not depend on the order of declarations. -/
theorem build_reordered (h : Reordered program preludes program' preludes') :
    ((∃ model, build program preludes = .ok model) ↔
      ∃ model, build program' preludes' = .ok model) ∧
    (((sources program preludes).filterMap Decl.declaredFunction?).Nodup →
      ∀ model model', build program preludes = .ok model → build program' preludes' = .ok model' →
        Names.SameAnswers model model') := build_perm h.sources

end Orders

section Window

open Build

/-- A window that is drawn on an imported canvas. -/
def windowDecls : List Decl :=
  [importNamed "gfx" ["Canvas"], classOf "Window" [field "canvas" (type "Canvas")],
    function "main" [] void []]

/-- The module it imports from. -/
def canvasModule : Program := program [moduleOf "gfx" [declared (classOf "Canvas" [])]]

/-- A function of the runtime. -/
def printing : Program := program [declaredFunction "print" [] void]

theorem windowDecls_reordered :
    ∃ model model', Model.build (program windowDecls) [canvasModule, printing] = .ok model ∧
      Model.build (program windowDecls.reverse) [printing, canvasModule] = .ok model' ∧
      Names.SameAnswers model model' := by
  have hreordered : Reordered (program windowDecls) [canvasModule, printing]
      (program windowDecls.reverse) [printing, canvasModule] := by
    refine ⟨(List.reverse_perm _).symm, [printing, canvasModule], .swap _ _ _, ?_⟩
    exact .cons (.refl _) (.cons (.refl _) .nil)
  have hsome : (Model.build (program windowDecls) [canvasModule, printing]).toOption.isSome := by
    decide +kernel
  obtain ⟨model, hmodel⟩ := Option.isSome_iff_exists.mp hsome
  have hmodel := Lowered.toOption_eq_some.mp hmodel
  have hnames : ((sources (program windowDecls) [canvasModule, printing]).filterMap
      Decl.declaredFunction?).Nodup := by
    decide +kernel
  obtain ⟨hiff, hsame⟩ := build_reordered hreordered
  obtain ⟨model', hmodel'⟩ := hiff.mp ⟨model, hmodel⟩
  exact ⟨model, model', hmodel, hmodel', hsame hnames model model' hmodel hmodel'⟩

end Window

end Model

end NativeLowering
