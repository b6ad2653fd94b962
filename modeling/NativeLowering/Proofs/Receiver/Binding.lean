import NativeLowering.Proofs.Model.Typed
import NativeLowering.Proofs.Pass.Run

/-!
# A method's body with the receiver as a parameter

The receiver function of a method has the method's body with a parameter in the place of the
current instance. The parameter is a pointer to the class where the current instance has the
class itself, and much of lowering looks at types.

`Receiver.bound` puts the parameter in place, and `Rebinding` relates the bindings of the two
bodies. Before receivers are made explicit the two can have different types: a method call on the
current instance has the result's type, one through a pointer is not typed. Afterwards types agree
(`typeOf_bound`), as long as the current instance is where a pointer can stand, which
`Receiver.Placed` says.

What a body has to avoid is in `Receiver.Portable`: a global of the parameter's name, and the
destructor of the current instance called inside an expression. The stages of its statements have to
be settled, since putting the parameter in place settles them (`bindReceiver_settled`).

Such a body can still be written differently in the two places. `Receiver.Carried` says where it is
not.
-/

set_option autoImplicit false

namespace NativeLowering

/-! ## Where the current instance may stand -/

namespace Expr

mutual

/-- The current instance is mentioned only as the object of a property or of a method call. -/
def ThisAsObject : Expr → Prop
  | .thisRef _ => False
  | .ident .. | .literal .. => True
  | .property _ object _ => object.isThis = true ∨ object.ThisAsObject
  | .call _ callee _ args => callee.ThisAsObject ∧ ThisAsObjectAll args
  | .new _ _ args => ThisAsObjectAll args
  | .binary _ _ left right => left.ThisAsObject ∧ right.ThisAsObject
  | .unary _ _ operand => operand.ThisAsObject
  | .paren _ inner => inner.ThisAsObject
  | .comma _ items => ThisAsObjectAll items
  | .receiverCall _ _ _ args => ThisAsObjectAll args

def ThisAsObjectAll : List Expr → Prop
  | [] => True
  | item :: rest => item.ThisAsObject ∧ ThisAsObjectAll rest

end

def isCall : Expr → Bool
  | .call .. => true
  | _ => false

/-- The member of the current instance that the expression is, if it is one. -/
def ownMember? : Expr → Option String
  | .property _ (.thisRef _) name => some name
  | _ => none

/-- The member of any object. -/
def memberName? : Expr → Option String
  | .property _ _ name => some name
  | _ => none

/-- Whether the expression destroys the current instance. -/
def isOwnDestruction : Expr → Bool
  | .call _ (.property _ (.thisRef _) name) _ [] => name = Spelling.destructor
  | _ => false

mutual

/-- The name that the expression has its type from, if it has the type of a name. -/
def rootName? : Expr → Option String
  | .ident _ name => some name
  | .binary _ op left _ => if op.isPredicate then none else left.rootName?
  | .unary _ op operand => if op = .not then none else operand.rootName?
  | .paren _ inner => inner.rootName?
  | .comma _ items => lastRootName? items
  | _ => none

def lastRootName? : List Expr → Option String
  | [] => none
  | [item] => item.rootName?
  | _ :: rest => lastRootName? rest

end

theorem ThisAsObject.not_this {value : Expr} (h : value.ThisAsObject) : value.isThis = false := by
  cases value with
  | thisRef span => exact h.elim
  | _ => rfl

theorem eq_this {value : Expr} (h : value.isThis = true) : ∃ span, value = .thisRef span := by
  cases value with
  | thisRef span => exact ⟨span, rfl⟩
  | _ => cases h

end Expr

/-- Whether a class declares a method of a name. -/
def Names.declaresMethod (names : Names) (owner name : String) : Bool :=
  ((names.classInfo? owner).bind (·.method? name)).isSome

/-- Whether an expression has its type from the name of a module. -/
def Names.namesModule (names : Names) (value : Expr) : Bool :=
  match value.rootName?.bind names.resolve? with
  | some (.ambient _) => true
  | _ => false

namespace Names

theorem namedType_ne_module (names : Names) (name specifier : String) :
    names.namedType name ≠ .moduleTy specifier := by
  unfold namedType
  split <;> nofun

theorem typeFromNode_ne_module (names : Names) (node : TypeNode) (specifier : String) :
    names.typeFromNode node ≠ .moduleTy specifier := by
  unfold typeFromNode
  split
  · simp
  · split
    · simp
    · exact names.namedType_ne_module _ _
  · split
    · simp
    · exact names.namedType_ne_module _ _
  · simp

theorem memberType_ne_module (names : Names) (name specifier : String) : ∀ owner : Ty,
    names.memberType owner name ≠ .moduleTy specifier
  | .classTy owner => by
    rw [memberType]
    split
    · unfold classMemberType typeFromOption
      split
      · split
        · nofun
        · exact names.typeFromNode_ne_module _ _
      · split <;> nofun
    · nofun
  | .moduleTy other => by
    rw [memberType]
    split <;> nofun
  | .pointer inner => by
    rw [memberType]
    exact memberType_ne_module names name specifier inner
  | .interfaceTy _ | .named _ | .primitive _ | .function | .unknown => by
    rw [memberType] <;> nofun

theorem resultType_ne_module (names : Names) (found : Option FunctionInfo) (specifier : String) :
    names.resultType found ≠ .moduleTy specifier := by
  unfold resultType typeFromOption
  split
  · split
    · nofun
    · exact names.typeFromNode_ne_module _ _
  · nofun

theorem methodResultType_ne_module (names : Names) (owner name specifier : String) :
    names.methodResultType owner name ≠ .moduleTy specifier := by
  unfold methodResultType typeFromOption
  split
  · split
    · nofun
    · exact names.typeFromNode_ne_module _ _
  · nofun

theorem methodCallType_ne_module (names : Names) (owner : Ty) (name specifier : String) :
    names.methodCallType owner name ≠ .moduleTy specifier := by
  unfold methodCallType
  split
  · exact names.methodResultType_ne_module _ _ _
  · exact names.resultType_ne_module _ _
  · nofun

section Modules

variable {names : Names} {locals : Locals}

mutual

/-- Only what has its type from the name of a module stands for one. -/
theorem namesModule_of_typeOf
    (hlocals : ∀ name specifier, locals.lookup? name ≠ some (.moduleTy specifier))
    {specifier : String} : ∀ value : Expr, names.typeOf locals value = .moduleTy specifier →
      names.namesModule value = true
  | .ident _ name, h => by
    rw [typeOf] at h
    split at h
    · rename_i type htype
      exact absurd (h ▸ htype) (hlocals name specifier)
    · unfold valueType at h
      unfold namesModule
      rw [Expr.rootName?, Option.bind_some]
      split at h
      · rename_i ambient hambient
        rw [hambient]
      · split at h <;> cases h
      · cases h
  | .thisRef _, h => by
    rw [typeOf] at h
    split at h <;> cases h
  | .literal _ value, h => by
    rw [typeOf] at h
    cases value <;> cases h
  | .property _ object name, h => by
    rw [typeOf] at h
    exact absurd h (names.memberType_ne_module _ _ _)
  | .call _ callee _ _, h => by
    cases callee with
    | ident =>
      rw [typeOf] at h
      exact absurd h (names.resultType_ne_module _ _)
    | property =>
      rw [typeOf] at h
      exact absurd h (names.methodCallType_ne_module _ _ _)
    | _ => cases h
  | .new _ target _, h => by
    cases target with
    | ident =>
      rw [typeOf] at h
      split at h <;> cases h
    | _ => cases h
  | .binary _ op left _, h => by
    rw [typeOf] at h
    unfold namesModule
    rw [Expr.rootName?]
    split at h
    · cases h
    · rename_i hop
      rw [if_neg hop]
      exact namesModule_of_typeOf hlocals left h
  | .unary _ op operand, h => by
    have hop : op ≠ .not := by
      rintro rfl
      cases h
    have hoperand : names.typeOf locals operand = .moduleTy specifier := by
      cases op with
      | not => exact absurd rfl hop
      | _ => exact h
    unfold namesModule
    rw [Expr.rootName?, if_neg hop]
    exact namesModule_of_typeOf hlocals operand hoperand
  | .paren _ inner, h => namesModule_of_typeOf hlocals inner h
  | .comma span items, h => namesModule_of_typeOfLast hlocals span items h
  | .receiverCall .., h => by
    rw [typeOf] at h
    exact absurd h (names.methodResultType_ne_module _ _ _)

theorem namesModule_of_typeOfLast
    (hlocals : ∀ name specifier, locals.lookup? name ≠ some (.moduleTy specifier))
    {specifier : String} (span : Span) : ∀ items : List Expr,
      names.typeOfLast locals items = .moduleTy specifier →
        names.namesModule (.comma span items) = true
  | [], h => by cases h
  | [item], h => namesModule_of_typeOf hlocals item h
  | _ :: item :: rest, h => namesModule_of_typeOfLast hlocals span (item :: rest) h

end

end Modules

end Names

theorem Model.typeFromNode_ne_module (model : Model) [model.Typed] (node : TypeNode)
    (specifier : String) : model.typeFromNode node ≠ .moduleTy specifier := by
  rw [model.typeFromNode_eq]
  exact Names.typeFromNode_ne_module model node specifier

namespace Receiver

mutual

/-- Where the current instance stands: as the object of a property, or as the receiver of a call. No
other name is that of the parameter, and what is called on the current instance meets a
condition. -/
def Placed (own : String → Prop) : Expr → Prop
  | .ident _ name => name ≠ Spelling.receiver
  | .thisRef _ => False
  | .literal .. => True
  | .property _ object _ => object.isThis = true ∨ Placed own object
  | .call _ callee _ args =>
    (∀ name, callee.ownMember? = some name → own name) ∧ Placed own callee ∧ PlacedAll own args
  | .new _ _ args => PlacedAll own args
  | .binary _ _ left right => Placed own left ∧ Placed own right
  | .unary _ _ operand => Placed own operand
  | .paren _ inner => Placed own inner
  | .comma _ items => PlacedAll own items
  | .receiverCall _ _ _ args => PlacedArgs own args

def PlacedAll (own : String → Prop) : List Expr → Prop
  | [] => True
  | item :: rest => Placed own item ∧ PlacedAll own rest

def PlacedArgs (own : String → Prop) : List Expr → Prop
  | [] => True
  | first :: rest => (first.isThis = true ∨ Placed own first) ∧ PlacedAll own rest

end

/-- Of the methods, the destructor is not called on the current instance. -/
def SparesOwn (model : Model) (owner name : String) : Prop :=
  name = Spelling.destructor → model.declaresMethod owner Spelling.destructor = false

/-- Once receivers are explicit, no method is. -/
def NotOwn (model : Model) (owner name : String) : Prop := model.declaresMethod owner name = false

mutual

/-- What a pointer in the place of the current instance does not disturb: no name is the pointer's,
and the own destructor is not called. -/
def Portable (model : Model) (owner : String) : Expr → Prop
  | .ident _ name => name ≠ Spelling.receiver
  | .thisRef _ | .literal .. => True
  | .property _ object _ => Portable model owner object
  | .call _ callee _ args =>
    (∀ name, callee.ownMember? = some name → SparesOwn model owner name) ∧
    Portable model owner callee ∧ PortableAll model owner args
  | .new _ _ args => PortableAll model owner args
  | .binary _ _ left right => Portable model owner left ∧ Portable model owner right
  | .unary _ _ operand => Portable model owner operand
  | .paren _ inner => Portable model owner inner
  | .comma _ items => PortableAll model owner items
  | .receiverCall _ _ _ args => PortableAll model owner args

def PortableAll (model : Model) (owner : String) : List Expr → Prop
  | [] => True
  | item :: rest => Portable model owner item ∧ PortableAll model owner rest

end

mutual

/-- The current instance is not written as what it is not: a handle, or an object whose destructor
is found through its class. Asked of the whole expression, or only of the parts that are certain to
be written: not of an object that names a module, and not of the arguments of a destructor. -/
def Carried (whole : Prop) (model : Model) (owner : String) : Expr → Prop
  | .ident .. | .thisRef _ | .literal .. => True
  | .property _ object _ =>
    (whole ∨ model.namesModule object = false) → Carried whole model owner object
  | .call _ callee _ args =>
    (∀ name, callee.ownMember? = some name → model.declaresMethod owner name = true →
      name ≠ Spelling.destructor ∧ model.isSharedClass owner = false) ∧
    Carried whole model owner callee ∧
    ((whole ∨ callee.memberName? ≠ some Spelling.destructor) → CarriedAll whole model owner args)
  | .new _ _ args => CarriedAll whole model owner args
  | .binary _ _ left right => Carried whole model owner left ∧ Carried whole model owner right
  | .unary _ _ operand => Carried whole model owner operand
  | .paren _ inner => Carried whole model owner inner
  | .comma _ items => CarriedAll whole model owner items
  | .receiverCall _ _ _ args =>
    (∀ first, args.head? = some first → first.isThis = true → model.isSharedClass owner = false) ∧
    CarriedAll whole model owner args

def CarriedAll (whole : Prop) (model : Model) (owner : String) : List Expr → Prop
  | [] => True
  | item :: rest => Carried whole model owner item ∧ CarriedAll whole model owner rest

end

mutual

/-- The expression with the receiver parameter in the place of the current instance. -/
def bound : Expr → Expr
  | .thisRef span => .ident span Spelling.receiver
  | .ident span name => .ident span name
  | .literal span value => .literal span value
  | .property span object name => .property span (bound object) name
  | .call span callee typeArgs args => .call span (bound callee) typeArgs (boundAll args)
  | .new span target args => .new span target (boundAll args)
  | .binary span op left right => .binary span op (bound left) (bound right)
  | .unary span op operand => .unary span op (bound operand)
  | .paren span inner => .paren span (bound inner)
  | .comma span items => .comma span (boundAll items)
  | .receiverCall span owner method args => .receiverCall span owner method (boundAll args)

def boundAll : List Expr → List Expr
  | [] => []
  | item :: rest => bound item :: boundAll rest

end

@[simp] theorem bound_span (value : Expr) : (bound value).span = value.span := by
  cases value <;> rfl

section Places

variable {own : String → Prop}

theorem PlacedAll.args {items : List Expr} (h : PlacedAll own items) : PlacedArgs own items := by
  cases items with
  | nil => trivial
  | cons first rest => exact ⟨.inr h.1, h.2⟩

theorem Placed.not_this {value : Expr} (h : Placed own value) : value.isThis = false := by
  cases value with
  | thisRef span => exact h.elim
  | _ => rfl

theorem Placed.bound_not_this {value : Expr} (h : Placed own value) :
    (bound value).isThis = false := by
  cases value with
  | thisRef span => exact h.elim
  | _ => rfl

theorem isAddressable_bound : ∀ value : Expr, Placed own value →
    (bound value).isAddressable = value.isAddressable
  | .ident .., _ | .literal .., _ | .call .., _ | .new .., _ | .binary .., _ | .unary .., _
  | .comma .., _ | .receiverCall .., _ => rfl
  | .thisRef _, h => h.elim
  | .property _ object _, h => by
    rcases h with hthis | hobject
    · obtain ⟨place, rfl⟩ := Expr.eq_this hthis
      rfl
    · simp only [bound, Expr.isAddressable, hobject.not_this, hobject.bound_not_this,
        isAddressable_bound object hobject]
  | .paren _ inner, h => isAddressable_bound inner h

mutual

theorem placed_of_portable {model : Model} {owner : String} : ∀ value : Expr, value.ThisAsObject →
    Portable model owner value → Placed (SparesOwn model owner) value
  | .ident .., _, hp => hp
  | .thisRef _, ht, _ => ht.elim
  | .literal .., _, _ => trivial
  | .property _ object _, ht, hp => ht.imp_right fun ht => placed_of_portable object ht hp
  | .call _ callee _ args, ht, hp =>
    ⟨hp.1, placed_of_portable callee ht.1 hp.2.1, placedAll_of_portable args ht.2 hp.2.2⟩
  | .new _ _ args, ht, hp => placedAll_of_portable args ht hp
  | .binary _ _ left right, ht, hp =>
    ⟨placed_of_portable left ht.1 hp.1, placed_of_portable right ht.2 hp.2⟩
  | .unary _ _ operand, ht, hp => placed_of_portable operand ht hp
  | .paren _ inner, ht, hp => placed_of_portable inner ht hp
  | .comma _ items, ht, hp => placedAll_of_portable items ht hp
  | .receiverCall _ _ _ args, ht, hp => (placedAll_of_portable args ht hp).args

theorem placedAll_of_portable {model : Model} {owner : String} : ∀ items : List Expr,
    Expr.ThisAsObjectAll items → PortableAll model owner items →
      PlacedAll (SparesOwn model owner) items
  | [], _, _ => trivial
  | item :: rest, ht, hp =>
    ⟨placed_of_portable item ht.1 hp.1, placedAll_of_portable rest ht.2 hp.2⟩

end

end Places

/-- How the bindings of a receiver function's body relate to those of its method's. -/
structure Rebinding (owner : String) (locals locals' : Locals) : Prop where
  framed : locals.frames ≠ []
  framed' : locals'.frames ≠ []
  this : locals.thisClass = some owner
  receiver : locals'.lookup? Spelling.receiver = some (.pointer (.classTy owner))
  others : ∀ name, name ≠ Spelling.receiver → locals'.lookup? name = locals.lookup? name
  /-- No variable stands for a module. -/
  modules : ∀ name specifier, locals.lookup? name ≠ some (.moduleTy specifier)

/-! ## Types -/

theorem methodCallType_own {names : Names} {owner name : String}
    (h : names.declaresMethod owner name = false) :
    names.methodCallType (.classTy owner) name = .unknown := by
  unfold Names.declaresMethod at h
  unfold Names.methodCallType Names.methodResultType
  cases hm : (names.classInfo? owner).bind (·.method? name) with
  | none => simp only [hm]
  | some method => simp [hm] at h

section Types

variable {model : Model} [model.Typed] {owner : String} {locals locals' : Locals}

theorem Rebinding.typeOf_this (h : Rebinding owner locals locals') (span : Span) :
    model.typeOf locals (.thisRef span) = .classTy owner := by
  rw [model.typeOf_thisRef, h.this]
  rfl

theorem Rebinding.typeOf_receiver (h : Rebinding owner locals locals') (span : Span) :
    model.typeOf locals' (.ident span Spelling.receiver) = .pointer (.classTy owner) := by
  rw [model.typeOf_ident, h.receiver]
  rfl

theorem Rebinding.namesModule_of_typeOf (h : Rebinding owner locals locals') {value : Expr}
    {specifier : String} (htype : model.typeOf locals value = .moduleTy specifier) :
    model.namesModule value = true :=
  Names.namesModule_of_typeOf h.modules value ((model.typeOf_eq locals value).symm.trans htype)

mutual

/-- The type of an expression does not depend on how the current instance is passed. -/
theorem typeOf_bound (h : Rebinding owner locals locals') : ∀ value : Expr,
    Placed (NotOwn model owner) value → model.typeOf locals' (bound value) = model.typeOf locals value
  | .ident _ name, hv => by
    rw [bound, model.typeOf_ident, model.typeOf_ident, h.others name hv]
  | .thisRef _, hv => hv.elim
  | .literal .., _ => by rw [bound, model.typeOf_literal, model.typeOf_literal]
  | .property _ object _, hv => by
    rw [bound, model.typeOf_property, model.typeOf_property]
    rcases hv with hthis | hobject
    · -- A member is looked up through the pointer.
      obtain ⟨span, rfl⟩ := Expr.eq_this hthis
      rw [bound, h.typeOf_receiver, h.typeOf_this]
      rfl
    · rw [typeOf_bound h object hobject]
  | .call _ (.ident _ _) _ _, _ => by
    rw [bound, bound, model.typeOf_functionCall, model.typeOf_functionCall]
  | .call _ (.property _ object name) _ _, ⟨hown, hcallee, _⟩ => by
    rw [bound, bound, model.typeOf_methodCall, model.typeOf_methodCall]
    rcases hcallee with hthis | hobject
    · -- A result is not, but here nothing is called that has one.
      obtain ⟨span, rfl⟩ := Expr.eq_this hthis
      rw [bound, h.typeOf_receiver, h.typeOf_this, methodCallType_own (hown name rfl),
        Names.methodCallType]
      · nofun
      · nofun
    · rw [typeOf_bound h object hobject]
  | .call _ (.thisRef _) _ _, hv => hv.2.1.elim
  | .call _ (.literal ..) _ _, _ | .call _ (.call ..) _ _, _ | .call _ (.new ..) _ _, _
  | .call _ (.binary ..) _ _, _ | .call _ (.unary ..) _ _, _ | .call _ (.paren ..) _ _, _
  | .call _ (.comma ..) _ _, _ | .call _ (.receiverCall ..) _ _, _ => by
    rw [bound, model.typeOf_call_computed _ _ rfl, model.typeOf_call_computed _ _ rfl]
  | .new span target args, _ => by
    rw [bound, model.typeOf_new, ← model.typeOf_new locals span target args]
  | .binary _ op left _, hv => by
    rw [bound, model.typeOf_binary, model.typeOf_binary, typeOf_bound h left hv.1]
  | .unary _ op operand, hv => by
    rw [bound, model.typeOf_unary, model.typeOf_unary, typeOf_bound h operand hv]
  | .paren _ inner, hv => by
    rw [bound, model.typeOf_paren, model.typeOf_paren, typeOf_bound h inner hv]
  | .comma _ items, hv => by
    rw [bound, model.typeOf_comma, model.typeOf_comma, typeOfLast_bound h items hv]
  | .receiverCall .., _ => by
    rw [bound, model.typeOf_receiverCall, model.typeOf_receiverCall]

theorem typeOfLast_bound (h : Rebinding owner locals locals') : ∀ items : List Expr,
    PlacedAll (NotOwn model owner) items →
      model.typeOfLast locals' (boundAll items) = model.typeOfLast locals items
  | [], _ => rfl
  | [item], hv => by
    rw [boundAll, boundAll, model.typeOfLast_single, model.typeOfLast_single,
      typeOf_bound h item hv.1]
  | _ :: item :: rest, hv => typeOfLast_bound h (item :: rest) hv.2

end

end Types

/-! ## Bindings along a body -/

/-- A body of a method declares no variable of the receiver's name, and annotates those it does
declare. -/
def Declarable : DeclCondition := fun name type =>
  name.ident? ≠ some Spelling.receiver ∧ type.isSome

theorem Rebinding.push {owner : String} {locals locals' : Locals}
    (h : Rebinding owner locals locals') (kind : FrameKind) :
    Rebinding owner (locals.push kind) (locals'.push kind) where
  framed := by simp [Locals.push]
  framed' := by simp [Locals.push]
  this := h.this
  receiver := h.receiver
  others := h.others
  modules := h.modules

theorem Rebinding.declare {owner : String} {locals locals' : Locals}
    (h : Rebinding owner locals locals') {name : String} (hname : name ≠ Spelling.receiver)
    {type : Ty} (htype : ∀ specifier, type ≠ .moduleTy specifier) :
    Rebinding owner (locals.declare name type) (locals'.declare name type) where
  framed := Locals.declare_frames_ne_nil h.framed name type
  framed' := Locals.declare_frames_ne_nil h.framed' name type
  this := by rw [Locals.declare_thisClass, h.this]
  receiver := by
    rw [Locals.lookup?_declare h.framed', if_neg hname.symm, h.receiver]
  others := by
    intro other hother
    rw [Locals.lookup?_declare h.framed', Locals.lookup?_declare h.framed, h.others other hother]
  modules := by
    intro other specifier hother
    rw [Locals.lookup?_declare h.framed] at hother
    split at hother
    · exact htype specifier (Option.some.inj hother)
    · exact h.modules other specifier hother

theorem Rebinding.tracks (model : Model) [model.Typed] (owner : String) (P : Expr → Prop) :
    Tracks model model bound (Rebinding owner) P Declarable := by
  refine .of_type (fun kind h => h.push kind) ?_ ?_
  · rintro locals locals' ⟨span, name, type, init⟩ h ⟨-, hsome⟩
    obtain ⟨node, rfl⟩ := Option.isSome_iff_exists.mp hsome
    rfl
  · rintro locals locals' ⟨span, binding, type, init⟩ name h ⟨hname, hsome⟩ rfl
    obtain ⟨node, rfl⟩ := Option.isSome_iff_exists.mp hsome
    exact h.declare (fun heq => hname (congrArg some heq)) (model.typeFromNode_ne_module node)

end Receiver

/-! ## Putting the parameter in place -/

namespace Stmt

/-- Whether the statement carries statements that run before it. -/
def isStaged : Stmt → Bool
  | .staged .. => true
  | _ => false

mutual

/-- Every stage of the statement has statements in it, is the only one of its statement and stands
where the statement does. A walk leaves such stages as they are; others it merges or drops. -/
def Settled : Stmt → Prop
  | .vars .. | .expr .. | .ret .. | .brk _ | .cont _ => True
  | .ifElse _ _ thenBranch elseBranch => thenBranch.Settled ∧ SettledOption elseBranch
  | .loop _ _ body => body.Settled
  | .block _ body => SettledList body
  | .staged span before body =>
    (before ≠ [] ∧ body.isStaged = false ∧ body.span = span) ∧ SettledList before ∧ body.Settled

def SettledOption : Option Stmt → Prop
  | none => True
  | some branch => branch.Settled

def SettledList : List Stmt → Prop
  | [] => True
  | stmt :: rest => stmt.Settled ∧ SettledList rest

end

theorem settledList_iff {body : List Stmt} : SettledList body ↔ ∀ stmt ∈ body, stmt.Settled := by
  induction body with
  | nil => simp [SettledList]
  | cons stmt rest ih => simp [SettledList, ih]

theorem restage_settled {span : Span} {before : List Stmt} {body : Stmt}
    (h : before ≠ [] ∧ body.isStaged = false ∧ body.span = span) :
    Walk.restage span before body = .staged span before body := by
  obtain ⟨hbefore, hstaged, rfl⟩ := h
  cases before with
  | nil => exact absurd rfl hbefore
  | cons first rest =>
    cases body with
    | staged => cases hstaged
    | _ => rfl

end Stmt

namespace Receiver

section Bind

open Stmt (mapList mapOption)

variable {model : Model}

abbrev binding : Walk.Visit := fun _ value => pure (bindThis value)

mutual

theorem expr_binding (locals : Locals) : ∀ value : Expr,
    Walk.expr (binding locals) value = pure (bound value)
  | .ident .. | .thisRef _ | .literal .. => rfl
  | .property _ object _ => by
    simp only [Walk.expr, expr_binding locals object, pure_bind, bound]
    rfl
  | .call _ callee _ args => by
    simp only [Walk.expr, expr_binding locals callee, exprs_binding locals args, pure_bind, bound]
    rfl
  | .new _ _ args => by
    simp only [Walk.expr, exprs_binding locals args, pure_bind, bound]
    rfl
  | .binary _ _ left right => by
    simp only [Walk.expr, expr_binding locals left, expr_binding locals right, pure_bind, bound]
    rfl
  | .unary _ _ operand => by
    simp only [Walk.expr, expr_binding locals operand, pure_bind, bound]
    rfl
  | .paren _ inner => by
    simp only [Walk.expr, expr_binding locals inner, pure_bind, bound]
    rfl
  | .comma _ items => by
    simp only [Walk.expr, exprs_binding locals items, pure_bind, bound]
    rfl
  | .receiverCall _ _ _ args => by
    simp only [Walk.expr, exprs_binding locals args, pure_bind, bound]
    rfl

theorem exprs_binding (locals : Locals) : ∀ items : List Expr,
    Walk.exprs (binding locals) items = pure (boundAll items)
  | [] => rfl
  | item :: rest => by
    simp only [Walk.exprs, expr_binding locals item, exprs_binding locals rest, pure_bind, boundAll]

end

theorem run_binding (value : Expr) (point : Walk.Point) :
    (Walk.atPoint binding value).run point = .ok ((bound value, []), point) := by
  refine Walk.run_atPoint.mpr ⟨point.next, ?_, rfl⟩
  rw [expr_binding]
  rfl

theorem run_bindingOption (value : Option Expr) (point : Walk.Point) :
    (Walk.atPointOption binding value).run point = .ok ((value.map bound, []), point) := by
  cases value with
  | none => rfl
  | some value =>
    exact Walk.run_atPointOption_some.mpr ⟨_, run_binding value point, rfl⟩

theorem run_bindingDecls (model : Model) : ∀ (decls : List VariableDecl) (point : Walk.Point), ∃ after,
    (Walk.varDecls model binding decls).run point
      = .ok ((decls.map (VariableDecl.mapExprs bound), []), after)
  | [], point => ⟨point, rfl⟩
  | decl :: rest, point => by
    have hdecl : (Walk.varDecl model binding decl).run point
        = .ok ((decl.mapExprs bound, []),
            ⟨declareLocal model point.locals (decl.mapExprs bound), point.next⟩) :=
      Walk.run_varDecl.mpr ⟨_, _, run_bindingOption decl.init point, rfl, rfl⟩
    obtain ⟨after, hrest⟩ := run_bindingDecls model rest
      ⟨declareLocal model point.locals (decl.mapExprs bound), point.next⟩
    refine ⟨after, ?_⟩
    exact Walk.run_varDecls_cons.mpr ⟨_, _, _, _, _, hdecl, hrest, rfl, rfl⟩

theorem run_bindingStmts {body : List Stmt}
    (h : ∀ stmt ∈ body, ∀ point, ∃ after,
      (Walk.stmt model binding stmt).run point = .ok (stmt.mapExprs bound, after))
    (point : Walk.Point) :
    ∃ after, (Walk.stmts model binding body).run point = .ok (mapList bound body, after) := by
  induction body generalizing point with
  | nil => exact ⟨point, rfl⟩
  | cons stmt rest ih =>
    obtain ⟨between, hstmt⟩ := h stmt (by simp) point
    obtain ⟨after, hrest⟩ := ih (fun other hm => h other (by simp [hm])) between
    exact ⟨after, Walk.run_stmts_cons.mpr ⟨_, _, _, hstmt, hrest, rfl⟩⟩

theorem run_bindingStmt (stmt : Stmt) (h : stmt.Settled) (point : Walk.Point) :
    ∃ after, (Walk.stmt model binding stmt).run point = .ok (stmt.mapExprs bound, after) := by
  induction stmt using Stmt.ind generalizing point with
  | vars span kind decls =>
    obtain ⟨after, hdecls⟩ := run_bindingDecls model decls point
    exact ⟨after, Walk.run_stmt_vars.mpr ⟨_, _, hdecls, rfl⟩⟩
  | expr span value =>
    exact ⟨point, Walk.run_stmt_expr.mpr ⟨_, _, run_binding value point, rfl⟩⟩
  | ret span value =>
    exact ⟨point, Walk.run_stmt_ret.mpr ⟨_, _, run_bindingOption value point, rfl⟩⟩
  | ifElse span condition thenBranch elseBranch hThen hElse =>
    obtain ⟨inner, hthen⟩ := hThen h.1 ⟨point.locals.push .block, point.next⟩
    have hthen' := Walk.run_inFrame.mpr ⟨inner, hthen, rfl⟩
    obtain ⟨after, helse⟩ : ∃ after, (Walk.elseStmt model binding elseBranch).run
        ⟨point.locals, inner.next⟩ = .ok (mapOption bound elseBranch, after) := by
      cases elseBranch with
      | none => exact ⟨_, rfl⟩
      | some branch =>
        obtain ⟨last, hbranch⟩ := hElse branch rfl h.2 ⟨point.locals.push .block, inner.next⟩
        have hbranch' := Walk.run_inFrame.mpr ⟨last, hbranch, rfl⟩
        exact ⟨⟨point.locals, last.next⟩, Walk.run_elseStmt_some.mpr ⟨_, hbranch', rfl⟩⟩
    have hcondition := run_binding condition point
    exact ⟨after, Walk.run_stmt_ifElse.mpr ⟨_, _, _, _, _, _, hcondition, hthen', helse, rfl⟩⟩
  | loop span condition body hBody =>
    obtain ⟨inner, hbody⟩ := hBody h ⟨point.locals.push .loop, point.next⟩
    have hbody' := Walk.run_inFrame.mpr ⟨inner, hbody, rfl⟩
    refine ⟨⟨point.locals, inner.next⟩, ?_⟩
    exact Walk.run_stmt_loop.mpr ⟨_, _, _, _, run_binding condition point, hbody', rfl⟩
  | brk | cont => exact ⟨point, rfl⟩
  | block span body hBody =>
    obtain ⟨inner, hbody⟩ := run_bindingStmts (fun stmt hm => hBody stmt hm
      (Stmt.settledList_iff.mp h stmt hm)) ⟨point.locals.push .block, point.next⟩
    have hbody' := Walk.run_inFrame.mpr ⟨inner, hbody, rfl⟩
    exact ⟨⟨point.locals, inner.next⟩, Walk.run_stmt_block.mpr ⟨_, hbody', rfl⟩⟩
  | staged span before body hBefore hBody =>
    obtain ⟨hstage, hbefore, hbody⟩ := h
    obtain ⟨between, hfirst⟩ := run_bindingStmts (fun stmt hm => hBefore stmt hm
      (Stmt.settledList_iff.mp hbefore stmt hm)) point
    obtain ⟨after, hsecond⟩ := hBody hbody between
    refine ⟨after, Walk.run_stmt_staged.mpr ⟨_, _, _, hfirst, hsecond, ?_⟩⟩
    rw [← Walk.restage_map, Stmt.restage_settled hstage]

/-- The parameter is put in place of the current instance, and nothing else changes. -/
theorem bindReceiver_settled {body : List Stmt} (h : Stmt.SettledList body) (locals : Locals) :
    bindReceiver model locals body = .ok (mapList bound body) := by
  refine Walk.body_eq_ok.mpr (run_bindingStmts (fun stmt hm point => ?_) _)
  exact run_bindingStmt stmt (Stmt.settledList_iff.mp h stmt hm) point

end Bind

end Receiver
end NativeLowering
