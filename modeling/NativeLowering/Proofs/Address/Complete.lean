import NativeLowering.Proofs.Address.Rewriting
import NativeLowering.Proofs.Pass.Run
import NativeLowering.Syntax.Build
import NativeLowering.Proofs.Model.Tables

/-!
# Operands without an address, all of them and nothing else

What a run of the materialization pass does to a body, for a body that has no stages and in which no
name looks like that of a temporary:

* no address is taken of what has none (`Addressed`);
* the temporaries are numbered in the order of evaluation, each is declared once, right before the
  statement that needs it, and assigned once, right before its address is taken (`PlacesAll`);
* the body can be read back from the result: with every operand back in its call (`restored`) and
  without the stages (`unstagedAll`) it is the body again.

The pass fails only at an operand whose type has no name. `materialization_complete` puts these
together.
-/

set_option autoImplicit false

namespace NativeLowering.Address

open Stmt (AllList mapList)
open Walk (stage)

/-! ## Addresses -/

mutual

/-- Wherever the expression takes the address of something, that denotes a storage location. The
class of a construction is not looked at. -/
def Addressed (model : Model) : Expr → Prop
  | .ident .. | .thisRef _ | .literal .. => True
  | .property _ object _ => Addressed model object
  | .call _ callee _ args =>
    Addressed model callee ∧ AddressedAll model args ∧
      (isBuiltinCall model .addressOf callee = true →
        ∀ operand, args = [operand] → operand.isAddressable = true)
  | .new _ _ args => AddressedAll model args
  | .binary _ _ left right => Addressed model left ∧ Addressed model right
  | .unary _ _ operand => Addressed model operand
  | .paren _ inner => Addressed model inner
  | .comma _ items => AddressedAll model items
  | .receiverCall _ _ _ args => AddressedAll model args

def AddressedAll (model : Model) : List Expr → Prop
  | [] => True
  | item :: rest => Addressed model item ∧ AddressedAll model rest

end

section Addressing

variable {model : Model}

theorem addressed_thread {callee : Expr} {args : List Expr} (hcallee : Addressed model callee)
    (hargs : AddressedAll model args) (number : Nat) (span : Span)
    (typeArgs : Option (List TypeNode)) :
    Addressed model (thread model number (.call span callee typeArgs args)) := by
  unfold thread
  split
  · rename_i place found given operand heq
    cases heq
    split
    · -- The address is that of the variable now.
      refine ⟨⟨trivial, hargs.1⟩, ⟨hcallee, ⟨trivial, trivial⟩, ?_⟩, trivial⟩
      intro _ other heq
      cases heq
      rfl
    · rename_i hneeds
      refine ⟨hcallee, hargs, fun hbuiltin other heq => ?_⟩
      cases heq
      simpa [hbuiltin] using hneeds
  · rename_i hother
    refine ⟨hcallee, hargs, fun _ operand heq => ?_⟩
    subst heq
    exact absurd rfl (hother span callee typeArgs operand)

theorem addressed_threadedAll {items : List Expr}
    (h : ∀ item ∈ items, ∀ next, Addressed model (threaded model next item)) (next : Nat) :
    AddressedAll model (threadedAll model next items) := by
  induction items generalizing next with
  | nil => trivial
  | cons item rest ih =>
    exact ⟨h item (by simp) next, ih (fun other hm => h other (by simp [hm])) _⟩

theorem addressed_threaded (value : Expr) : ∀ next, Addressed model (threaded model next value) := by
  induction value using Expr.ind with
  | ident | thisRef | literal => exact fun _ => trivial
  | property span object name hobject => exact fun next => hobject next
  | call span callee typeArgs args hcallee hargs =>
    exact fun next => addressed_thread (hcallee next) (addressed_threadedAll hargs _) _ span typeArgs
  | new span target args hargs => exact fun next => addressed_threadedAll hargs next
  | binary span op left right hleft hright => exact fun next => ⟨hleft next, hright _⟩
  | unary span op operand hoperand => exact fun next => hoperand next
  | paren span inner hinner => exact fun next => hinner next
  | comma span items hitems => exact fun next => addressed_threadedAll hitems next
  | receiverCall span owner method args hargs => exact fun next => addressed_threadedAll hargs next

end Addressing

/-! ## Names of temporaries -/

/-- Whether a name starts like those of the temporaries. -/
def isTemporary (name : String) : Bool := Spelling.temporaryStem.toList.isPrefixOf name.toList

theorem isTemporary_temporary (number : Nat) : isTemporary (Spelling.temporary number) = true := by
  simp [isTemporary, Spelling.temporary]

/-- The temporaries from a number on. -/
def numbered (next count : Nat) : List String := (List.range' next count).map Spelling.temporary

theorem numbered_append (next first second : Nat) :
    numbered next first ++ numbered (next + first) second = numbered next (first + second) := by
  rw [numbered, numbered, ← List.map_append, List.range'_append_1, numbered]

mutual

/-- No name in the expression starts like those of the temporaries. -/
def NoTemporary : Expr → Prop
  | .ident _ name => isTemporary name = false
  | .thisRef _ | .literal .. => True
  | .property _ object _ => NoTemporary object
  | .call _ callee _ args => NoTemporary callee ∧ NoTemporaryAll args
  | .new _ target args => NoTemporary target ∧ NoTemporaryAll args
  | .binary _ _ left right => NoTemporary left ∧ NoTemporary right
  | .unary _ _ operand => NoTemporary operand
  | .paren _ inner => NoTemporary inner
  | .comma _ items => NoTemporaryAll items
  | .receiverCall _ _ _ args => NoTemporaryAll args

def NoTemporaryAll : List Expr → Prop
  | [] => True
  | item :: rest => NoTemporary item ∧ NoTemporaryAll rest

end

/-- No variable has a name that starts like those of the temporaries. -/
def OwnName : DeclCondition := fun binding _ =>
  ∀ name, binding.ident? = some name → isTemporary name = false

/-! ## Where temporaries stand in an expression -/

mutual

/-- The temporaries of an expression, in the order of evaluation. A temporary stands only where its
operand is assigned to it and its address is taken right after that. -/
inductive Threads (model : Model) : Expr → List String → Prop
  | ident {span : Span} {name : String} (h : isTemporary name = false) :
      Threads model (.ident span name) []
  | thisRef {span : Span} : Threads model (.thisRef span) []
  | literal {span : Span} {value : Literal} : Threads model (.literal span value) []
  | property {span : Span} {object : Expr} {name : String} {names : List String}
      (h : Threads model object names) : Threads model (.property span object name) names
  | call {span : Span} {callee : Expr} {typeArgs : Option (List TypeNode)} {args : List Expr}
      {names more : List String} (hcallee : Threads model callee names)
      (hargs : ThreadsAll model args more) :
      Threads model (.call span callee typeArgs args) (names ++ more)
  | new {span : Span} {target : Expr} {args : List Expr} {names : List String}
      (htarget : NoTemporary target) (hargs : ThreadsAll model args names) :
      Threads model (.new span target args) names
  | binary {span : Span} {op : Vocabulary.BinaryOp} {left right : Expr} {names more : List String}
      (hleft : Threads model left names) (hright : Threads model right more) :
      Threads model (.binary span op left right) (names ++ more)
  | unary {span : Span} {op : Vocabulary.UnaryOp} {operand : Expr} {names : List String}
      (h : Threads model operand names) : Threads model (.unary span op operand) names
  | paren {span : Span} {inner : Expr} {names : List String} (h : Threads model inner names) :
      Threads model (.paren span inner) names
  | comma {span : Span} {items : List Expr} {names : List String}
      (h : ThreadsAll model items names) : Threads model (.comma span items) names
  | receiverCall {span : Span} {owner method : String} {args : List Expr} {names : List String}
      (h : ThreadsAll model args names) :
      Threads model (.receiverCall span owner method args) names
  | through {span : Span} {name : String} {operand callee : Expr}
      {typeArgs : Option (List TypeNode)} {names : List String}
      (hbuiltin : isBuiltinCall model .addressOf callee = true)
      (hcallee : Threads model callee []) (hplace : operand.isAddressable = false)
      (hoperand : Threads model operand names) (hname : isTemporary name = true) :
      Threads model (throughTemporary span name operand callee typeArgs) (names ++ [name])

inductive ThreadsAll (model : Model) : List Expr → List String → Prop
  | nil : ThreadsAll model [] []
  | cons {item : Expr} {rest : List Expr} {names more : List String}
      (hitem : Threads model item names) (hrest : ThreadsAll model rest more) :
      ThreadsAll model (item :: rest) (names ++ more)

end

section Threading

variable {model : Model}

/-- What is called by a built-in's name has no temporaries in it. -/
theorem Threads.of_builtin {callee : Expr} {names : List String} {builtin : Vocabulary.Builtin}
    (h : Threads model callee names) (hbuiltin : isBuiltinCall model builtin callee = true) :
    names = [] := by
  cases callee with
  | ident => cases h; rfl
  | _ => simp [isBuiltinCall] at hbuiltin

theorem ownOperands_kept {callee callee' : Expr} (hcallee : Kept model callee callee')
    {args args' : List Expr} (hargs : List.Forall₂ (Kept model) args args') (span : Span)
    (typeArgs : Option (List TypeNode)) :
    (ownOperands model (.call span callee typeArgs args)).length
      = (ownOperands model (.call span callee' typeArgs args')).length := by
  cases hargs with
  | nil => rfl
  | cons first rest =>
    cases rest with
    | cons => rfl
    | nil =>
      simp only [ownOperands, hcallee.builtin, first.isAddressable]
      split <;> rfl

theorem threads_thread {callee : Expr} {args : List Expr} {names more : List String}
    (hcallee : Threads model callee names) (hargs : ThreadsAll model args more) (number : Nat)
    (span : Span) (typeArgs : Option (List TypeNode)) :
    Threads model (thread model number (.call span callee typeArgs args))
      (names ++ (more ++
        numbered number (ownOperands model (.call span callee typeArgs args)).length)) := by
  unfold thread
  split
  · rename_i place found given operand heq
    cases heq
    simp only [ownOperands]
    split
    · rename_i hneeds
      rw [Bool.and_eq_true, Bool.not_eq_true'] at hneeds
      obtain rfl := hcallee.of_builtin hneeds.1
      cases hargs with
      | cons hoperand hrest =>
        cases hrest
        rw [List.append_nil]
        exact .through hneeds.1 hcallee hneeds.2 hoperand (isTemporary_temporary number)
    · simpa [numbered] using hcallee.call hargs
  · rename_i hother
    have hown : ownOperands model (.call span callee typeArgs args) = [] := by
      unfold ownOperands
      split
      · rename_i heq
        cases heq
        exact absurd rfl (hother _ _ _ _)
      · rfl
    simpa [numbered, hown] using hcallee.call hargs

theorem threads_all {items : List Expr}
    (h : ∀ item ∈ items, NoTemporary item → ∀ next,
      Threads model (threaded model next item) (numbered next (operands model item).length))
    (hclean : NoTemporaryAll items) (next : Nat) :
    ThreadsAll model (threadedAll model next items)
      (numbered next (operandsAll model items).length) := by
  induction items generalizing next with
  | nil => exact .nil
  | cons item rest ih =>
    rw [operandsAll, List.length_append, ← numbered_append]
    exact .cons (h item (by simp) hclean.1 next)
      (ih (fun other hm => h other (by simp [hm])) hclean.2 _)

variable [model.Typed]

theorem threads_threaded (value : Expr) : NoTemporary value → ∀ next,
    Threads model (threaded model next value) (numbered next (operands model value).length) := by
  induction value using Expr.ind with
  | ident span name => exact fun hclean next => .ident hclean
  | thisRef => exact fun _ _ => .thisRef
  | literal => exact fun _ _ => .literal
  | property span object name hobject => exact fun hclean next => .property (hobject hclean next)
  | call span callee typeArgs args hcallee hargs =>
    intro hclean next
    have hkept := ownOperands_kept (kept_threaded callee next)
      (kept_threadedAll (fun item (_ : item ∈ args) => @kept_threaded model _ item)
        (next + (operands model callee).length)) span typeArgs
    simp only [operands, List.length_append, ← numbered_append, List.append_assoc, hkept]
    exact threads_thread (hcallee hclean.1 next) (threads_all hargs hclean.2 _) _ span typeArgs
  | new span target args hargs =>
    exact fun hclean next => .new hclean.1 (threads_all hargs hclean.2 next)
  | binary span op left right hleft hright =>
    intro hclean next
    rw [operands, List.length_append, ← numbered_append]
    exact .binary (hleft hclean.1 next) (hright hclean.2 _)
  | unary span op operand hoperand => exact fun hclean next => .unary (hoperand hclean next)
  | paren span inner hinner => exact fun hclean next => .paren (hinner hclean next)
  | comma span items hitems => exact fun hclean next => .comma (threads_all hitems hclean next)
  | receiverCall span owner method args hargs =>
    exact fun hclean next => .receiverCall (threads_all hargs hclean next)

end Threading

/-! ## Reading an expression back -/

/-- The call that stands behind the assignment of its operand to a temporary, with its operand back
in place. -/
def addressCall? : Expr → Option Expr
  | .comma _ [.binary _ .assign (.ident _ name) operand, .call span callee typeArgs [.ident _ taken]] =>
    if isTemporary name && name == taken then some (.call span callee typeArgs [operand]) else none
  | _ => none

mutual

/-- The expression with every operand that was assigned to a temporary back in its call. -/
def restored : Expr → Expr
  | .ident span name => .ident span name
  | .thisRef span => .thisRef span
  | .literal span value => .literal span value
  | .property span object name => .property span (restored object) name
  | .call span callee typeArgs args => .call span (restored callee) typeArgs (restoredAll args)
  | .new span target args => .new span target (restoredAll args)
  | .binary span op left right => .binary span op (restored left) (restored right)
  | .unary span op operand => .unary span op (restored operand)
  | .paren span inner => (addressCall? (restored inner)).getD (.paren span (restored inner))
  | .comma span items => .comma span (restoredAll items)
  | .receiverCall span owner method args => .receiverCall span owner method (restoredAll args)

def restoredAll : List Expr → List Expr
  | [] => []
  | item :: rest => restored item :: restoredAll rest

end

section Restoring

variable {model : Model}

theorem addressCall?_of_noTemporary {inner : Expr} (h : NoTemporary inner) :
    addressCall? inner = none := by
  unfold addressCall?
  split
  · have hname : isTemporary _ = false := h.1.1
    simp [hname]
  · rfl

theorem restored_thread {callee : Expr} {args : List Expr} (number : Nat) (span : Span)
    (typeArgs : Option (List TypeNode)) :
    restored (thread model number (.call span callee typeArgs args))
      = .call span (restored callee) typeArgs (restoredAll args) := by
  unfold thread
  split
  · rename_i place found given operand heq
    cases heq
    split
    · simp [throughTemporary, restored, restoredAll, addressCall?, isTemporary_temporary]
    · rfl
  · rfl

theorem restored_all {items : List Expr}
    (h : ∀ item ∈ items, NoTemporary item → ∀ next, restored (threaded model next item) = item)
    (hclean : NoTemporaryAll items) (next : Nat) :
    restoredAll (threadedAll model next items) = items := by
  induction items generalizing next with
  | nil => rfl
  | cons item rest ih =>
    rw [threadedAll, restoredAll, h item (by simp) hclean.1,
      ih (fun other hm => h other (by simp [hm])) hclean.2]

theorem restored_threaded (value : Expr) : NoTemporary value → ∀ next,
    restored (threaded model next value) = value := by
  induction value using Expr.ind with
  | ident | thisRef | literal => exact fun _ _ => rfl
  | property span object name hobject =>
    intro hclean next
    rw [threaded, restored, hobject hclean]
  | call span callee typeArgs args hcallee hargs =>
    intro hclean next
    simp only [threaded]
    rw [restored_thread, hcallee hclean.1, restored_all hargs hclean.2]
  | new span target args hargs =>
    intro hclean next
    rw [threaded, restored, restored_all hargs hclean.2]
  | binary span op left right hleft hright =>
    intro hclean next
    rw [threaded, restored, hleft hclean.1, hright hclean.2]
  | unary span op operand hoperand =>
    intro hclean next
    rw [threaded, restored, hoperand hclean]
  | paren span inner hinner =>
    intro hclean next
    have hnone : addressCall? inner = none := addressCall?_of_noTemporary hclean
    rw [threaded, restored, hinner hclean, hnone]
    rfl
  | comma span items hitems =>
    intro hclean next
    rw [threaded, restored, restored_all hitems hclean]
  | receiverCall span owner method args hargs =>
    intro hclean next
    rw [threaded, restored, restored_all hargs hclean]

end Restoring

/-! ## Statements without stages -/

mutual

/-- No statement has statements to run before it. -/
def Unstaged : Stmt → Prop
  | .vars .. | .expr .. | .ret .. | .brk _ | .cont _ => True
  | .ifElse _ _ thenBranch elseBranch => Unstaged thenBranch ∧ UnstagedOption elseBranch
  | .loop _ _ body => Unstaged body
  | .block _ body => UnstagedAll body
  | .staged .. => False

def UnstagedOption : Option Stmt → Prop
  | none => True
  | some branch => Unstaged branch

def UnstagedAll : List Stmt → Prop
  | [] => True
  | stmt :: rest => Unstaged stmt ∧ UnstagedAll rest

end

mutual

/-- The statement without its stages. -/
def unstaged : Stmt → Stmt
  | .vars span kind decls => .vars span kind decls
  | .expr span value => .expr span value
  | .ret span value => .ret span value
  | .ifElse span condition thenBranch elseBranch =>
    .ifElse span condition (unstaged thenBranch) (unstagedOption elseBranch)
  | .loop span condition body => .loop span condition (unstaged body)
  | .brk span => .brk span
  | .cont span => .cont span
  | .block span body => .block span (unstagedAll body)
  | .staged _ _ body => unstaged body

def unstagedOption : Option Stmt → Option Stmt
  | none => none
  | some branch => some (unstaged branch)

def unstagedAll : List Stmt → List Stmt
  | [] => []
  | stmt :: rest => unstaged stmt :: unstagedAll rest

end

theorem unstaged_stage (before : List Stmt) (stmt : Stmt) :
    unstaged (stage before stmt) = unstaged stmt := by
  cases before <;> rfl

/-! ## Where temporaries are declared -/

/-- Each of the names is declared once, in order and without an initial value. -/
def Declares (before : List Stmt) (names : List String) : Prop :=
  List.Forall₂ (fun stmt name => ∃ span type, stmt = declaration span name type) before names

/-- The temporaries in the initial values of variables. No variable is a temporary itself. -/
inductive ThreadsDecls (model : Model) : List VariableDecl → List String → Prop
  | nil : ThreadsDecls model [] []
  | bare {decl : VariableDecl} {rest : List VariableDecl} {names : List String}
      (hname : OwnName decl.name decl.type) (hinit : decl.init = none)
      (hrest : ThreadsDecls model rest names) : ThreadsDecls model (decl :: rest) names
  | initialized {decl : VariableDecl} {init : Expr} {rest : List VariableDecl}
      {names more : List String} (hname : OwnName decl.name decl.type)
      (hinit : decl.init = some init) (hthreads : Threads model init names)
      (hrest : ThreadsDecls model rest more) : ThreadsDecls model (decl :: rest) (names ++ more)

mutual

/-- The temporaries of a statement, in the order in which they are declared. Those of its own
expressions are declared right before it, and it has a stage only if there are any. -/
inductive Places (model : Model) : Stmt → List String → Prop
  | plain {stmt : Stmt} {inner : List String} (h : Owns model stmt [] inner) :
      Places model stmt inner
  | staged {stmt : Stmt} {before : List Stmt} {own inner : List String} (hown : own ≠ [])
      (hbefore : Declares before own) (h : Owns model stmt own inner) :
      Places model (.staged stmt.span before stmt) (own ++ inner)

/-- The temporaries of the expressions that a statement is built from, and those of the statements
inside it. A stage is not part of the statement. -/
inductive Owns (model : Model) : Stmt → List String → List String → Prop
  | vars {span : Span} {kind : VariableKind} {decls : List VariableDecl} {own : List String}
      (h : ThreadsDecls model decls own) : Owns model (.vars span kind decls) own []
  | expr {span : Span} {value : Expr} {own : List String} (h : Threads model value own) :
      Owns model (.expr span value) own []
  | leave {span : Span} : Owns model (.ret span none) [] []
  | ret {span : Span} {value : Expr} {own : List String} (h : Threads model value own) :
      Owns model (.ret span (some value)) own []
  | ifElse {span : Span} {condition : Expr} {thenBranch : Stmt} {elseBranch : Option Stmt}
      {own first second : List String} (hcondition : Threads model condition own)
      (hthen : Places model thenBranch first) (helse : PlacesOption model elseBranch second) :
      Owns model (.ifElse span condition thenBranch elseBranch) own (first ++ second)
  | loop {span : Span} {condition : Expr} {body : Stmt} {own inner : List String}
      (hcondition : Threads model condition own) (hbody : Places model body inner) :
      Owns model (.loop span condition body) own inner
  | brk {span : Span} : Owns model (.brk span) [] []
  | cont {span : Span} : Owns model (.cont span) [] []
  | block {span : Span} {body : List Stmt} {inner : List String}
      (h : PlacesAll model body inner) : Owns model (.block span body) [] inner

inductive PlacesOption (model : Model) : Option Stmt → List String → Prop
  | none : PlacesOption model none []
  | some {branch : Stmt} {names : List String} (h : Places model branch names) :
      PlacesOption model (some branch) names

inductive PlacesAll (model : Model) : List Stmt → List String → Prop
  | nil : PlacesAll model [] []
  | cons {stmt : Stmt} {rest : List Stmt} {names more : List String} (h : Places model stmt names)
      (hrest : PlacesAll model rest more) : PlacesAll model (stmt :: rest) (names ++ more)

end

section Placing

variable {model : Model}

theorem declares_declarations (next : Nat) (sites : List Site) :
    Declares (declarations model next sites) (numbered next sites.length) := by
  induction sites generalizing next with
  | nil => exact .nil
  | cons site rest ih => exact .cons ⟨_, _, rfl⟩ (ih (next + 1))

/-- A statement behind the declarations of its own temporaries. -/
theorem Owns.places {stmt : Stmt} {own : List Site} {next count : Nat}
    (h : Owns model stmt (numbered next own.length) (numbered (next + own.length) count)) :
    Places model (stage (declarations model next own) stmt) (numbered next (own.length + count)) := by
  rw [← numbered_append]
  cases own with
  | nil => exact .plain h
  | cons site rest => exact .staged (by simp [numbered]) (declares_declarations next _) h

theorem Owns.placesAlone {stmt : Stmt} {own : List Site} {next : Nat}
    (h : Owns model stmt (numbered next own.length) []) :
    Places model (stage (declarations model next own) stmt) (numbered next own.length) := by
  have hnone : Owns model stmt (numbered next own.length) (numbered (next + own.length) 0) := h
  exact hnone.places

theorem places_all {body : List Stmt}
    (h : ∀ stmt ∈ body, Unstaged stmt → stmt.All NoTemporary OwnName → ∀ locals next,
      Places model (materialized model locals next stmt)
        (numbered next (sites model locals stmt).length))
    (hplain : UnstagedAll body) (hclean : AllList NoTemporary OwnName body) (locals : Locals)
    (next : Nat) :
    PlacesAll model (materializedAll model locals next body)
      (numbered next (sitesAll model locals body).length) := by
  induction body generalizing locals next with
  | nil => exact .nil
  | cons stmt rest ih =>
    rw [sitesAll, List.length_append, ← numbered_append]
    exact .cons (h stmt (by simp) hplain.1 hclean.1 locals next)
      (ih (fun other hm => h other (by simp [hm])) hplain.2 hclean.2 _ _)

variable [model.Typed]

theorem threadsDecls_threaded {decls : List VariableDecl}
    (hall : ∀ decl ∈ decls, decl.All NoTemporary OwnName) (locals : Locals) (next : Nat) :
    ThreadsDecls model (threadedDecls model next decls)
      (numbered next (declSites model locals decls).length) := by
  induction decls generalizing locals next with
  | nil => exact .nil
  | cons decl rest ih =>
    have hdecl := hall decl (by simp)
    have hrest := ih fun other hm => hall other (by simp [hm])
    rw [declSites, List.length_append, ← numbered_append]
    cases hinit : decl.init with
    | none =>
      simp only [threadedDecls, hinit]
      exact .bare hdecl.1 rfl (hrest _ _)
    | some init =>
      simp only [threadedDecls, hinit, optionSites, exprSites, List.length_map]
      exact .initialized hdecl.1 rfl (threads_threaded init (hdecl.2 init hinit) next) (hrest _ _)

theorem places_stmt (stmt : Stmt) : Unstaged stmt → stmt.All NoTemporary OwnName → ∀ locals next,
    Places model (materialized model locals next stmt)
      (numbered next (sites model locals stmt).length) := by
  have hvalue (locals : Locals) (next : Nat) {value : Expr} (hclean : NoTemporary value) :
      Threads model (threaded model next value)
        (numbered next (exprSites model locals value).length) := by
    rw [exprSites, List.length_map]
    exact threads_threaded value hclean next
  -- The temporaries of a statement stand in front of it, and only those of its own expression: what a
  -- branch or a body needs stands inside.
  induction stmt using Stmt.ind with
  | vars span kind decls =>
    intro _ hclean locals next
    exact Owns.placesAlone (.vars (threadsDecls_threaded hclean locals next))
  | expr span value =>
    intro _ hclean locals next
    exact Owns.placesAlone (.expr (hvalue locals next hclean))
  | ret span value =>
    intro _ hclean locals next
    cases value with
    | none => exact .plain .leave
    | some value => exact Owns.placesAlone (.ret (hvalue locals next (hclean value rfl)))
  | ifElse span condition thenBranch elseBranch hThen hElse =>
    intro hplain hclean locals next
    obtain ⟨hcondition, hthen, helse⟩ := hclean
    rw [sites, List.length_append, List.length_append]
    refine Owns.places ?_
    rw [← numbered_append]
    refine .ifElse (hvalue locals next hcondition) (hThen hplain.1 hthen _ _) ?_
    cases elseBranch with
    | none => exact .none
    | some branch => exact .some (hElse branch rfl hplain.2 helse _ _)
  | loop span condition body hBody =>
    intro hplain hclean locals next
    rw [sites, List.length_append]
    exact Owns.places (.loop (hvalue locals next hclean.1) (hBody hplain hclean.2 _ _))
  | brk => exact fun _ _ _ _ => .plain .brk
  | cont => exact fun _ _ _ _ => .plain .cont
  | block span body hBody =>
    intro hplain hclean locals next
    exact .plain (.block (places_all hBody hplain hclean _ next))
  | staged =>
    intro hplain
    cases hplain

end Placing

/-! ## The body, read back -/

section ReadingBack

variable {model : Model}

theorem restored_decls {decls : List VariableDecl}
    (hall : ∀ decl ∈ decls, decl.All NoTemporary OwnName) (next : Nat) :
    (threadedDecls model next decls).map (VariableDecl.mapExprs restored) = decls := by
  induction decls generalizing next with
  | nil => rfl
  | cons decl rest ih =>
    have hinit : (decl.init.map (threaded model next)).map restored = decl.init := by
      cases hdecl : decl.init with
      | none => rfl
      | some init =>
        simp [restored_threaded init ((hall decl (by simp)).2 init hdecl)]
    simp only [threadedDecls, List.map_cons, ih fun other hm => hall other (by simp [hm]),
      VariableDecl.mapExprs, hinit]

theorem unstaged_all {body : List Stmt}
    (h : ∀ stmt ∈ body, Unstaged stmt → stmt.All NoTemporary OwnName → ∀ locals next,
      unstaged ((materialized model locals next stmt).mapExprs restored) = stmt)
    (hplain : UnstagedAll body) (hclean : AllList NoTemporary OwnName body) (locals : Locals)
    (next : Nat) :
    unstagedAll (mapList restored (materializedAll model locals next body)) = body := by
  induction body generalizing locals next with
  | nil => rfl
  | cons stmt rest ih =>
    rw [materializedAll, mapList, unstagedAll, h stmt (by simp) hplain.1 hclean.1,
      ih (fun other hm => h other (by simp [hm])) hplain.2 hclean.2]

theorem unstaged_stmt (stmt : Stmt) : Unstaged stmt → stmt.All NoTemporary OwnName →
    ∀ locals next, unstaged ((materialized model locals next stmt).mapExprs restored) = stmt := by
  induction stmt using Stmt.ind with
  | vars span kind decls =>
    intro _ hclean locals next
    rw [materialized, Walk.stage_map, unstaged_stage, Stmt.mapExprs, restored_decls hclean, unstaged]
  | expr span value =>
    intro _ hclean locals next
    rw [materialized, Walk.stage_map, unstaged_stage, Stmt.mapExprs,
      restored_threaded value hclean, unstaged]
  | ret span value =>
    intro _ hclean locals next
    rw [materialized, Walk.stage_map, unstaged_stage, Stmt.mapExprs, unstaged]
    cases value with
    | none => rfl
    | some value => simp [restored_threaded value (hclean value rfl)]
  | ifElse span condition thenBranch elseBranch hThen hElse =>
    intro hplain hclean locals next
    obtain ⟨hcondition, hthen, helse⟩ := hclean
    simp only [materialized]
    rw [Walk.stage_map, unstaged_stage, Stmt.mapExprs, unstaged, restored_threaded _ hcondition,
      hThen hplain.1 hthen]
    cases elseBranch with
    | none => rfl
    | some branch =>
      rw [materializedOption, Stmt.mapOption, unstagedOption, hElse branch rfl hplain.2 helse]
  | loop span condition body hBody =>
    intro hplain hclean locals next
    simp only [materialized]
    rw [Walk.stage_map, unstaged_stage, Stmt.mapExprs, unstaged, restored_threaded _ hclean.1,
      hBody hplain hclean.2]
  | brk | cont => exact fun _ _ _ _ => rfl
  | block span body hBody =>
    intro hplain hclean locals next
    rw [materialized, Stmt.mapExprs, unstaged, unstaged_all hBody hplain hclean]
  | staged =>
    intro hplain
    cases hplain

end ReadingBack

/-! ## Runs -/

section Runs

variable {model : Model} {locals : Locals} {body out : List Stmt}

theorem allNamed_eq_error {sites : List Site} {err : LoweringError}
    (h : allNamed model sites = .error err) :
    ∃ site ∈ sites, site.node? model = none ∧
      err = .fault site.operand.span .untypedTemporary := by
  induction sites with
  | nil => cases h
  | cons site rest ih =>
    rw [allNamed, Site.named] at h
    cases hnode : site.node? model with
    | none =>
      simp only [hnode] at h
      cases h
      exact ⟨site, by simp, hnode, rfl⟩
    | some node =>
      simp only [hnode] at h
      obtain ⟨other, hm, hother⟩ := ih h
      exact ⟨other, by simp [hm], hother⟩

theorem addressed_declarations (next : Nat) (sites : List Site) :
    AllList (Addressed model) (fun _ _ => True) (declarations model next sites) := by
  induction sites generalizing next with
  | nil => trivial
  | cons site rest ih =>
    refine ⟨fun decl hm => ?_, ih (next + 1)⟩
    rw [List.mem_singleton.mp hm]
    exact ⟨trivial, fun init hinit => by cases hinit⟩

variable [model.Typed]

theorem run_eq_ok (h : run model locals body = .ok out) :
    out = materializedAll model locals 1 body := by
  rw [run_eq, Lowered.map_eq_ok] at h
  obtain ⟨-, -, rfl⟩ := h
  rfl

theorem run_eq_error {err : LoweringError} (h : run model locals body = .error err) :
    ∃ site ∈ sitesAll model locals body, site.node? model = none ∧
      err = .fault site.operand.span .untypedTemporary := by
  rw [run_eq] at h
  apply allNamed_eq_error
  cases hnamed : allNamed model (sitesAll model locals body) with
  | ok _ =>
    rw [hnamed] at h
    cases h
  | error other =>
    rw [hnamed] at h
    cases h
    rfl

theorem addressed_run (h : run model locals body = .ok out) :
    AllList (Addressed model) (fun _ _ => True) out := by
  refine (Walk.walk_transport (E := fun _ _ => True) (Tracks.refl model _ fun _ _ => True)
    (Walk.VisitTransport.unary ?_) rfl (Stmt.allList_iff.mpr fun stmt _ => stmt.all_trivial) h).1
  intro locals value result next last before _ hrun
  -- A visit that succeeds gives the threaded expression and its declarations.
  rw [visits_expr value next [], Lowered.map_eq_ok] at hrun
  obtain ⟨-, -, heq⟩ := hrun
  cases heq
  exact ⟨addressed_threaded value next, addressed_declarations next _⟩

end Runs

/-! ## Operands that need a variable -/

section Sites

variable {model : Model}

theorem ownOperands_not_addressable {value operand : Expr} (h : operand ∈ ownOperands model value) :
    operand.isAddressable = false := by
  unfold ownOperands at h
  split at h
  · split at h
    · rename_i hneeds
      rw [Bool.and_eq_true, Bool.not_eq_true'] at hneeds
      rw [List.mem_singleton.mp h]
      exact hneeds.2
    · cases h
  · cases h

theorem operandsAll_subset {P : Expr → Prop} {items : List Expr}
    (h : ∀ item ∈ items, ∀ operand ∈ operands model item, P operand) :
    ∀ operand ∈ operandsAll model items, P operand := by
  induction items with
  | nil => simp [operandsAll]
  | cons item rest ih =>
    intro operand hm
    rcases List.mem_append.mp hm with hm | hm
    · exact h item (by simp) operand hm
    · exact ih (fun other ho => h other (by simp [ho])) operand hm

theorem operands_not_addressable (value : Expr) :
    ∀ operand ∈ operands model value, operand.isAddressable = false := by
  induction value using Expr.ind with
  | ident | thisRef | literal => simp [operands]
  | property span object name hobject => exact hobject
  | call span callee typeArgs args hcallee hargs =>
    intro operand hm
    rw [operands, List.mem_append, List.mem_append] at hm
    rcases hm with (hm | hm) | hm
    · exact hcallee operand hm
    · exact operandsAll_subset hargs operand hm
    · exact ownOperands_not_addressable hm
  | new span target args hargs => exact operandsAll_subset hargs
  | binary span op left right hleft hright =>
    intro operand hm
    rcases List.mem_append.mp hm with hm | hm
    · exact hleft operand hm
    · exact hright operand hm
  | unary span op operand hoperand => exact hoperand
  | paren span inner hinner => exact hinner
  | comma span items hitems => exact operandsAll_subset hitems
  | receiverCall span owner method args hargs => exact operandsAll_subset hargs

theorem exprSites_not_addressable (locals : Locals) (value : Expr) :
    ∀ site ∈ exprSites model locals value, site.operand.isAddressable = false := by
  intro site hm
  obtain ⟨operand, hoperand, rfl⟩ := List.mem_map.mp hm
  exact operands_not_addressable value operand hoperand

theorem optionSites_not_addressable (locals : Locals) (value : Option Expr) :
    ∀ site ∈ optionSites model locals value, site.operand.isAddressable = false := by
  cases value with
  | none => simp [optionSites]
  | some value => exact exprSites_not_addressable locals value

theorem declSites_not_addressable (decls : List VariableDecl) (locals : Locals) :
    ∀ site ∈ declSites model locals decls, site.operand.isAddressable = false := by
  induction decls generalizing locals with
  | nil => simp [declSites]
  | cons decl rest ih =>
    intro site hm
    rcases List.mem_append.mp hm with hm | hm
    · exact optionSites_not_addressable locals decl.init site hm
    · exact ih _ site hm

theorem sitesAll_not_addressable {body : List Stmt}
    (h : ∀ stmt ∈ body, ∀ locals, ∀ site ∈ sites model locals stmt,
      site.operand.isAddressable = false) (locals : Locals) :
    ∀ site ∈ sitesAll model locals body, site.operand.isAddressable = false := by
  induction body generalizing locals with
  | nil => simp [sitesAll]
  | cons stmt rest ih =>
    intro site hm
    rcases List.mem_append.mp hm with hm | hm
    · exact h stmt (by simp) locals site hm
    · exact ih (fun other ho => h other (by simp [ho])) _ site hm

theorem sites_not_addressable (stmt : Stmt) : ∀ locals, ∀ site ∈ sites model locals stmt,
    site.operand.isAddressable = false := by
  induction stmt using Stmt.ind with
  | vars span kind decls => exact declSites_not_addressable decls
  | expr span value => exact fun locals => exprSites_not_addressable locals value
  | ret span value => exact fun locals => optionSites_not_addressable locals value
  | ifElse span condition thenBranch elseBranch hThen hElse =>
    intro locals site hm
    rw [sites, List.mem_append, List.mem_append] at hm
    rcases hm with hm | hm | hm
    · exact exprSites_not_addressable locals condition site hm
    · exact hThen _ site hm
    · cases elseBranch with
      | none => cases hm
      | some branch => exact hElse branch rfl _ site hm
  | loop span condition body hBody =>
    intro locals site hm
    rcases List.mem_append.mp hm with hm | hm
    · exact exprSites_not_addressable locals condition site hm
    · exact hBody _ site hm
  | brk | cont => simp [sites]
  | block span body hBody => exact fun locals => sitesAll_not_addressable hBody _
  | staged span before body hBefore hBody =>
    intro locals site hm
    rcases List.mem_append.mp hm with hm | hm
    · exact sitesAll_not_addressable hBefore locals site hm
    · exact hBody _ site hm

end Sites

/-- Nothing that a variable could be declared with denotes the type. -/
def Nameless : Ty → Prop
  | .unknown | .function | .moduleTy _ => True
  | .pointer inner => Nameless inner
  | .classTy _ | .interfaceTy _ | .named _ | .primitive _ => False

theorem nameless_of_toTypeNode? {type : Ty} {span : Span} (h : type.toTypeNode? span = none) :
    Nameless type := by
  induction type with
  | pointer inner ih =>
    rw [Ty.toTypeNode?, Option.map_eq_none_iff] at h
    exact ih h
  | moduleTy | function | unknown => trivial
  | classTy | interfaceTy | named | primitive => cases h

theorem numbered_nodup (next count : Nat) : (numbered next count).Nodup := by
  refine List.Nodup.map (fun first second heq => ?_) List.nodup_range'
  have hdigits := (String.append_right_inj Spelling.temporaryStem).mp heq
  exact Nat.repr_injective hdigits

/-- **Materialization is complete and changes nothing else.** In what it gives, no address is taken
of what has none; the temporaries are numbered from one in the order of evaluation, and each is
declared and assigned once, where it is needed; and without them the result is the body again. It
fails only at an operand that has no address and whose type has no name. -/
theorem materialization_complete (model : TypedModel) (locals : Locals) (body : List Stmt)
    (hplain : UnstagedAll body) (hclean : AllList NoTemporary OwnName body) :
    (∀ out, run model locals body = .ok out →
      AllList (Addressed model) (fun _ _ => True) out ∧
      (PlacesAll model out (numbered 1 (sitesAll model locals body).length) ∧
        (numbered 1 (sitesAll model locals body).length).Nodup) ∧
      unstagedAll (mapList restored out) = body) ∧
    ∀ err, run model locals body = .error err →
      ∃ site ∈ sitesAll model locals body, site.operand.isAddressable = false ∧
        Nameless (site.type model) ∧ err = .fault site.operand.span .untypedTemporary ∧
        Fault.untypedTemporary.category = .semantic := by
  constructor
  · intro out hrun
    refine ⟨addressed_run hrun, ⟨?_, numbered_nodup _ _⟩, ?_⟩
    · rw [run_eq_ok hrun]
      exact places_all (fun stmt _ => places_stmt stmt) hplain hclean locals 1
    · rw [run_eq_ok hrun]
      exact unstaged_all (fun stmt _ => unstaged_stmt stmt) hplain hclean locals 1
  · intro err hrun
    obtain ⟨site, hm, hnode, rfl⟩ := run_eq_error hrun
    have hplace := sitesAll_not_addressable (fun stmt _ => sites_not_addressable stmt) locals site hm
    exact ⟨site, hm, hplace, nameless_of_toTypeNode? hnode, rfl, rfl⟩

/-! ## Nested operands -/

/-- A function that native code provides, with a number or nothing as its result. -/
def provided (name : String) (result : Keyword) : String × Symbol :=
  (name, .item
    { name, span := {}
      info := .functionInfo
        { traits := {}, declared := true, returnType := some (.keyword {} result)
          builtin := Vocabulary.Builtin.ofString? name } })

/-- The functions that the bodies below call. -/
def surface : TypedModel := Names.model <| Tables.names
  { values := [provided "addressof" .number, provided "make" .number, provided "consume" .void] }

/-- The address of a number that is made for it. -/
def addressOfMade : Expr :=
  Build.call (Build.ident "addressof") [Build.call (Build.ident "make") []]

/-- A loop that needs a variable in its condition, and two in the lone statement that it repeats. -/
def nestedOperands : List Stmt :=
  [Build.loop addressOfMade
    (Build.exprStmt (Build.call (Build.ident "consume")
      [Build.call (Build.ident "addressof") [addressOfMade]]))]

theorem materialization_complete_nested : ∃ out,
    run surface (.start none) nestedOperands = .ok out ∧
      (sitesAll surface (.start none) nestedOperands).length = 3 ∧
      PlacesAll surface out (numbered 1 3) ∧
      unstagedAll (mapList restored out) = nestedOperands := by
  refine ⟨_, rfl, rfl, ?_⟩
  have hclean : AllList NoTemporary OwnName nestedOperands := by
    simp only [nestedOperands, addressOfMade, Build.loop, Build.exprStmt, Build.call, Build.ident,
      AllList, Stmt.All, NoTemporary, NoTemporaryAll]
    decide
  obtain ⟨hok, -⟩ := materialization_complete surface (.start none) nestedOperands
    ⟨trivial, trivial⟩ hclean
  obtain ⟨-, ⟨hplaces, -⟩, hback⟩ := hok _ rfl
  exact ⟨hplaces, hback⟩

end NativeLowering.Address
