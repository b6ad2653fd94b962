import NativeLowering.Generate
import NativeLowering.Proofs.Address.Complete

/-!
# Are the names of the temporaries fresh?

The temporaries of a body are numbered, so they are told apart from each other. From the names that
the function brings along nothing tells them apart: the pass does not look for a number that is free.
`temporaries_fresh_iff` says when they are fresh all the same, and that then no scope declares a name
twice that did not do so before. `clashing_redeclared` is a function for which they are not.

Where a name is declared is given by the scopes of a function: the outermost holds its parameters and
the variables of its body, and every block and every branch has one of its own. A stage declares in
the scope of its statement.
-/

set_option autoImplicit false

namespace NativeLowering.Address

open Walk (stage restage)

/-! ## Names -/

mutual

/-- The identifiers in an expression. -/
def identifiers : Expr → List String
  | .ident _ name => [name]
  | .thisRef _ | .literal .. => []
  | .property _ object _ => identifiers object
  | .call _ callee _ args => identifiers callee ++ identifiersAll args
  | .new _ target args => identifiers target ++ identifiersAll args
  | .binary _ _ left right => identifiers left ++ identifiers right
  | .unary _ _ operand => identifiers operand
  | .paren _ inner => identifiers inner
  | .comma _ items => identifiersAll items
  | .receiverCall _ _ _ args => identifiersAll args

def identifiersAll : List Expr → List String
  | [] => []
  | item :: rest => identifiers item ++ identifiersAll rest

end

mutual

/-- The identifiers in the expressions of a statement. -/
def used : Stmt → List String
  | .vars _ _ decls => decls.flatMap fun decl => decl.init.elim [] identifiers
  | .expr _ value => identifiers value
  | .ret _ value => value.elim [] identifiers
  | .ifElse _ condition thenBranch elseBranch =>
    identifiers condition ++ (used thenBranch ++ usedOption elseBranch)
  | .loop _ condition body => identifiers condition ++ used body
  | .brk _ | .cont _ => []
  | .block _ body => usedAll body
  | .staged _ before body => usedAll before ++ used body

def usedOption : Option Stmt → List String
  | none => []
  | some branch => used branch

def usedAll : List Stmt → List String
  | [] => []
  | stmt :: rest => used stmt ++ usedAll rest

end

/-! ## Scopes -/

mutual

/-- The names that a statement declares in the scope it stands in. -/
def declaredHere : Stmt → List String
  | .vars _ _ decls => decls.filterMap fun decl => decl.name.ident?
  | .staged _ before body => declaredHereAll before ++ declaredHere body
  | .expr .. | .ret .. | .ifElse .. | .loop .. | .brk _ | .cont _ | .block .. => []

def declaredHereAll : List Stmt → List String
  | [] => []
  | stmt :: rest => declaredHere stmt ++ declaredHereAll rest

end

mutual

/-- The names that are declared in each of the scopes inside a statement. -/
def innerScopes : Stmt → List (List String)
  | .ifElse _ _ thenBranch elseBranch =>
    declaredHere thenBranch :: (innerScopes thenBranch ++ innerScopesOption elseBranch)
  | .loop _ _ body => declaredHere body :: innerScopes body
  | .block _ body => declaredHereAll body :: innerScopesAll body
  | .staged _ before body => innerScopesAll before ++ innerScopes body
  | .vars .. | .expr .. | .ret .. | .brk _ | .cont _ => []

def innerScopesOption : Option Stmt → List (List String)
  | none => []
  | some branch => declaredHere branch :: innerScopes branch

def innerScopesAll : List Stmt → List (List String)
  | [] => []
  | stmt :: rest => innerScopes stmt ++ innerScopesAll rest

end

/-- The names that are declared in each of the scopes of a function. -/
def scopes (params : List String) (body : List Stmt) : List (List String) :=
  (params ++ declaredHereAll body) :: innerScopesAll body

/-- Every name that a function brings along: its parameters, its variables and the identifiers in its
expressions. -/
def sourceNames (params : List String) (body : List Stmt) : List String :=
  (scopes params body).flatten ++ usedAll body

section Appending

theorem declaredHereAll_append (first second : List Stmt) :
    declaredHereAll (first ++ second) = declaredHereAll first ++ declaredHereAll second := by
  induction first with
  | nil => rfl
  | cons stmt rest ih => simp [declaredHereAll, ih]

theorem innerScopesAll_append (first second : List Stmt) :
    innerScopesAll (first ++ second) = innerScopesAll first ++ innerScopesAll second := by
  induction first with
  | nil => rfl
  | cons stmt rest ih => simp [innerScopesAll, ih]

@[simp] theorem declaredHere_withSpan (span : Span) (stmt : Stmt) :
    declaredHere (stmt.withSpan span) = declaredHere stmt := by
  cases stmt <;> rfl

@[simp] theorem innerScopes_withSpan (span : Span) (stmt : Stmt) :
    innerScopes (stmt.withSpan span) = innerScopes stmt := by
  cases stmt <;> rfl

@[simp] theorem declaredHere_stage (before : List Stmt) (stmt : Stmt) :
    declaredHere (stage before stmt) = declaredHereAll before ++ declaredHere stmt := by
  cases before <;> rfl

@[simp] theorem innerScopes_stage (before : List Stmt) (stmt : Stmt) :
    innerScopes (stage before stmt) = innerScopesAll before ++ innerScopes stmt := by
  cases before <;> rfl

@[simp] theorem declaredHere_restage (span : Span) (before : List Stmt) (stmt : Stmt) :
    declaredHere (restage span before stmt) = declaredHereAll before ++ declaredHere stmt := by
  cases stmt with
  | staged _ more body => simp [restage, declaredHere, declaredHereAll_append]
  | _ => exact declaredHere_stage before _

@[simp] theorem innerScopes_restage (span : Span) (before : List Stmt) (stmt : Stmt) :
    innerScopes (restage span before stmt) = innerScopesAll before ++ innerScopes stmt := by
  cases stmt with
  | staged _ more body => simp [restage, innerScopes, innerScopesAll_append]
  | _ => exact innerScopes_stage before _

end Appending

/-! ## What the pass adds to the scopes -/

/-- The scopes of a body and those of another, in which each declares some more names. -/
inductive Widened : List (List String) → List (List String) → List String → Prop
  | nil : Widened [] [] []
  | cons {scope scope' own added : List String} {rest rest' : List (List String)}
      (hscope : scope'.Perm (scope ++ own)) (hrest : Widened rest rest' added) :
      Widened (scope :: rest) (scope' :: rest') (own ++ added)

section Widening

variable {model : Model}

theorem Widened.append {first first' second second' : List (List String)} {added more : List String}
    (h : Widened first first' added) (h' : Widened second second' more) :
    Widened (first ++ second) (first' ++ second') (added ++ more) := by
  induction h with
  | nil => exact h'
  | cons hscope hrest ih =>
    rw [List.append_assoc]
    exact .cons hscope ih

/-- All names that are declared, with those that came in addition. -/
theorem Widened.flatten {before after : List (List String)} {added : List String}
    (h : Widened before after added) : after.flatten.Perm (before.flatten ++ added) := by
  induction h with
  | nil => exact .refl _
  | cons hscope hrest ih =>
    refine (hscope.append ih).trans ?_
    rw [List.perm_iff_count]
    intro name
    simp only [List.flatten_cons, List.count_append]
    omega

/-- Scopes that declare no name twice still do not, if what came in addition is new to them. -/
theorem Widened.nodup {before after : List (List String)} {added : List String}
    (h : Widened before after added) (hadded : added.Nodup)
    (hfresh : ∀ name ∈ added, ∀ scope ∈ before, name ∉ scope)
    (hnodup : ∀ scope ∈ before, scope.Nodup) : ∀ scope ∈ after, scope.Nodup := by
  induction h with
  | nil => simp
  | cons hscope hrest ih =>
    rename_i scope scope' own added rest rest'
    rw [List.nodup_append'] at hadded
    intro other hm
    rcases List.mem_cons.mp hm with rfl | hm
    · rw [hscope.nodup_iff, List.nodup_append']
      refine ⟨hnodup scope (by simp), hadded.1, fun name hname hown => ?_⟩
      exact hfresh name (by simp [hown]) scope (by simp) hname
    · refine ih hadded.2.1 (fun name hname scope hs => ?_) (fun scope hs => ?_) other hm
      · exact hfresh name (by simp [hname]) scope (by simp [hs])
      · exact hnodup scope (by simp [hs])

/-- What a statement declares, in its own scope and in those inside, is what it declared before and
the temporaries of a range. -/
def Gains (next count : Nat) (here here' : List String) (inner inner' : List (List String)) : Prop :=
  ∃ own added, here'.Perm (here ++ own) ∧ Widened inner inner' added ∧
    (own ++ added).Perm (numbered next count)

theorem Gains.append {next count more : Nat} {here here' there there' : List String}
    {inner inner' outer outer' : List (List String)} (h : Gains next count here here' inner inner')
    (h' : Gains (next + count) more there there' outer outer') :
    Gains next (count + more) (here ++ there) (here' ++ there') (inner ++ outer)
      (inner' ++ outer') := by
  obtain ⟨own, added, hhere, hinner, hnames⟩ := h
  obtain ⟨own', added', hhere', hinner', hnames'⟩ := h'
  refine ⟨own ++ own', added ++ added', (hhere.append hhere').trans ?_, hinner.append hinner', ?_⟩
  · rw [List.perm_iff_count]
    intro name
    simp only [List.count_append]
    omega
  · rw [← numbered_append]
    refine .trans ?_ (hnames.append hnames')
    rw [List.perm_iff_count]
    intro name
    simp only [List.count_append]
    omega

/-- A scope of its own: what it declares is declared inside. -/
theorem Gains.enclose {next count : Nat} {here here' : List String} {inner inner' : List (List String)}
    (h : Gains next count here here' inner inner') :
    Gains next count [] [] (here :: inner) (here' :: inner') := by
  obtain ⟨own, added, hhere, hinner, hnames⟩ := h
  exact ⟨[], own ++ added, .refl _, .cons hhere hinner, hnames⟩

theorem gains_nothing (next : Nat) (here : List String) : Gains next 0 here here [] [] :=
  ⟨[], [], by simp, .nil, .refl _⟩

theorem declaredHereAll_declarations (next : Nat) (sites : List Site) :
    declaredHereAll (declarations model next sites) = numbered next sites.length := by
  induction sites generalizing next with
  | nil => rfl
  | cons site rest ih => exact congrArg (Spelling.temporary next :: ·) (ih (next + 1))

theorem innerScopesAll_declarations (next : Nat) (sites : List Site) :
    innerScopesAll (declarations model next sites) = [] := by
  induction sites generalizing next with
  | nil => rfl
  | cons site rest ih => exact ih (next + 1)

theorem gains_stage {own : List Site} {next count : Nat} {stmt stmt' : Stmt}
    (h : Gains (next + own.length) count (declaredHere stmt) (declaredHere stmt')
      (innerScopes stmt) (innerScopes stmt')) :
    Gains next (own.length + count) (declaredHere stmt)
      (declaredHere (stage (declarations model next own) stmt')) (innerScopes stmt)
      (innerScopes (stage (declarations model next own) stmt')) := by
  have hown : Gains next own.length [] (numbered next own.length) [] [] :=
    ⟨numbered next own.length, [], .refl _, .nil, by simp⟩
  simpa [declaredHereAll_declarations, innerScopesAll_declarations] using hown.append h

/-- A statement without scopes inside declares what it declared, and its own temporaries. -/
theorem gains_stage_alone {own : List Site} {next : Nat} {stmt stmt' : Stmt}
    (hhere : declaredHere stmt' = declaredHere stmt) (hinner : innerScopes stmt = [])
    (hinner' : innerScopes stmt' = []) :
    Gains next own.length (declaredHere stmt)
      (declaredHere (stage (declarations model next own) stmt')) (innerScopes stmt)
      (innerScopes (stage (declarations model next own) stmt')) := by
  have hnothing := gains_nothing (next + own.length) (declaredHere stmt)
  rw [← Nat.add_zero own.length]
  refine gains_stage ?_
  rw [hhere, hinner, hinner']
  exact hnothing

theorem names_threadedDecls (decls : List VariableDecl) (next : Nat) :
    ((threadedDecls model next decls).filterMap fun decl => decl.name.ident?)
      = decls.filterMap fun decl => decl.name.ident? := by
  induction decls generalizing next with
  | nil => rfl
  | cons decl rest ih => simp only [threadedDecls, List.filterMap_cons, ih]

theorem gains_all {body : List Stmt}
    (h : ∀ stmt ∈ body, ∀ locals next, Gains next (sites model locals stmt).length
      (declaredHere stmt) (declaredHere (materialized model locals next stmt))
      (innerScopes stmt) (innerScopes (materialized model locals next stmt)))
    (locals : Locals) (next : Nat) :
    Gains next (sitesAll model locals body).length (declaredHereAll body)
      (declaredHereAll (materializedAll model locals next body)) (innerScopesAll body)
      (innerScopesAll (materializedAll model locals next body)) := by
  induction body generalizing locals next with
  | nil => exact gains_nothing next []
  | cons stmt rest ih =>
    rw [sitesAll, List.length_append]
    exact (h stmt (by simp) locals next).append (ih (fun other hm => h other (by simp [hm])) _ _)

theorem gains_stmt (stmt : Stmt) : ∀ locals next, Gains next (sites model locals stmt).length
    (declaredHere stmt) (declaredHere (materialized model locals next stmt))
    (innerScopes stmt) (innerScopes (materialized model locals next stmt)) := by
  induction stmt using Stmt.ind with
  | vars span kind decls =>
    intro locals next
    exact gains_stage_alone (names_threadedDecls decls next) rfl rfl
  | expr span value => exact fun _ _ => gains_stage_alone rfl rfl rfl
  | ret span value => exact fun _ _ => gains_stage_alone rfl rfl rfl
  | ifElse span condition thenBranch elseBranch hThen hElse =>
    intro locals next
    rw [sites, List.length_append, List.length_append]
    refine gains_stage ?_
    have hthen := (hThen (locals.push .block)
      (next + (exprSites model locals condition).length)).enclose
    cases elseBranch with
    | none => exact hthen.append (gains_nothing _ [])
    | some branch => exact hthen.append (hElse branch rfl _ _).enclose
  | loop span condition body hBody =>
    intro locals next
    rw [sites, List.length_append]
    exact gains_stage (hBody _ _).enclose
  | brk | cont => exact fun _ next => gains_nothing next []
  | block span body hBody => exact fun locals next => (gains_all hBody _ next).enclose
  | staged span before body hBefore hBody =>
    intro locals next
    rw [sites, List.length_append, materialized, declaredHere_restage, innerScopes_restage]
    exact (gains_all hBefore locals next).append (hBody _ _)

end Widening

/-! ## Freshness -/

/-- The names that a body declares and another did not, with multiplicity. -/
def introduced (params : List String) (body out : List Stmt) : List String :=
  (scopes params out).flatten.diff (scopes params body).flatten

theorem introduced_perm {params : List String} {body out : List Stmt} {added : List String}
    (h : (scopes params out).flatten.Perm ((scopes params body).flatten ++ added)) :
    (introduced params body out).Perm added := by
  rw [List.perm_iff_count] at h ⊢
  intro name
  rw [introduced, List.count_diff, h name, List.count_append]
  omega

/-- **When temporaries are fresh.** The names that a run introduces are those of as many temporaries
as there are operands without an address, all different. They are new to the function exactly if it
brings along none of these names, and then no scope declares a name twice that did not before. -/
theorem temporaries_fresh_iff {model : TypedModel} {locals : Locals} (params : List String)
    {body out : List Stmt} (hrun : run model locals body = .ok out) :
    (introduced params body out).Perm (numbered 1 (sitesAll model locals body).length) ∧
      (introduced params body out).Nodup ∧
      ((∀ name ∈ introduced params body out, name ∉ sourceNames params body) ↔
        ∀ number, 1 ≤ number → number ≤ (sitesAll model locals body).length →
          Spelling.temporary number ∉ sourceNames params body) ∧
      ((∀ name ∈ introduced params body out, name ∉ sourceNames params body) →
        (∀ scope ∈ scopes params body, scope.Nodup) → ∀ scope ∈ scopes params out, scope.Nodup) := by
  obtain ⟨own, added, hhere, hinner, hnames⟩ :=
    gains_all (fun stmt (_ : stmt ∈ body) => @gains_stmt model stmt) locals 1
  rw [← run_eq_ok hrun] at hhere hinner
  have hwidened : Widened (scopes params body) (scopes params out) (own ++ added) := by
    refine .cons ?_ hinner
    rw [List.append_assoc]
    exact hhere.append_left params
  have hadded : (introduced params body out).Perm (own ++ added) := introduced_perm hwidened.flatten
  have hnumbered := hadded.trans hnames
  have hnodup : (introduced params body out).Nodup := hnumbered.nodup_iff.mpr (numbered_nodup _ _)
  refine ⟨hnumbered, hnodup, ?_, ?_⟩
  · simp only [hnumbered.mem_iff, numbered, List.mem_map, List.mem_range'_1]
    constructor
    · intro h number hfirst hlast
      exact h _ ⟨number, ⟨hfirst, by omega⟩, rfl⟩
    · rintro h _ ⟨number, ⟨hfirst, hlast⟩, rfl⟩
      exact h number hfirst (by omega)
  · intro hfresh hscopes
    refine hwidened.nodup (hadded.nodup_iff.mp hnodup) (fun name hname scope hs hin => ?_) hscopes
    have hsource : name ∈ (scopes params body).flatten := List.mem_flatten_of_mem hs hin
    exact hfresh name (hadded.mem_iff.mpr hname) (List.mem_append_left _ hsource)

/-- Passes on the address of a number that is made for it, then a parameter. -/
def passBoth (param : String) : List Stmt :=
  [Build.exprStmt (Build.call (Build.ident "consume") [addressOfMade]),
   Build.exprStmt (Build.call (Build.ident "consume") [Build.ident param])]

/-- With a parameter of any other name, the one temporary is fresh. -/
theorem temporaries_fresh_iff_passBoth : ∃ out,
    run surface (.start none) (passBoth "value") = .ok out ∧
      (introduced ["value"] (passBoth "value") out).Perm ["_tscc_temp_1"] ∧
      ∀ scope ∈ scopes ["value"] out, scope.Nodup := by
  refine ⟨_, rfl, ?_⟩
  obtain ⟨hperm, -, hfresh, hscopes⟩ :=
    @temporaries_fresh_iff surface (.start none) ["value"] (passBoth "value") _ rfl
  refine ⟨hperm, hscopes (hfresh.mpr fun number hfirst hlast => ?_) (by decide)⟩
  obtain rfl : number = 1 := Nat.le_antisymm hlast hfirst
  decide

/-- The function with that body, and the declarations it needs. -/
def passProgram (param : String) : Program :=
  Build.program [Build.function "main" [Build.param param (Build.keyword .number)] Build.void
    (passBoth param)]

def passPrelude : Program :=
  Build.program
    [Build.declaredFunction "addressof" [Build.param "value" (Build.keyword .number)]
      (Build.keyword .number),
     Build.declaredFunction "make" [] (Build.keyword .number),
     Build.declaredFunction "consume" [Build.param "place" (Build.keyword .number)] Build.void]

/-- A parameter with the name of the temporary is declared again in its own scope, and what is passed
on in its place is the number made. -/
theorem clashing_redeclared :
    (∃ out, run surface (.start none) (passBoth "_tscc_temp_1") = .ok out ∧
      introduced ["_tscc_temp_1"] (passBoth "_tscc_temp_1") out = ["_tscc_temp_1"] ∧
      scopes ["_tscc_temp_1"] out = [["_tscc_temp_1", "_tscc_temp_1"]]) ∧
    (generate {} (passProgram "_tscc_temp_1") [passPrelude]).toOption = some
      ("void tscc_main(double _tscc_temp_1)\n\x7b\n    double _tscc_temp_1;\n" ++
        "    tscc_consume((_tscc_temp_1 = tscc_make(), &_tscc_temp_1));\n" ++
        "    tscc_consume(_tscc_temp_1);\n\x7d\n") := by
  refine ⟨⟨_, rfl, by decide, by decide⟩, ?_⟩
  decide +kernel

end NativeLowering.Address
