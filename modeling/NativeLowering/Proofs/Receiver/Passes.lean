import NativeLowering.Options
import NativeLowering.Proofs.Receiver.Binding

/-!
# The passes over a method's body and over its receiver function's

The passes do the same to both bodies (`bodies_transport`). Each looks at types, but only at those
of expressions whose parts have been visited, and by then the two bodies have the same types.

`Follows` is what becomes of one expression: what it becomes in the second body is what it becomes
in the first with the parameter in place. Besides, it is carried over exactly if it was before. Both
walks are followed by induction on the expression.
-/

set_option autoImplicit false

namespace NativeLowering
namespace Receiver

/-- The passes that run unless something else is asked for, and this one. -/
def explicitReceivers : Options := { passes := { PassSet.standard with receiver := true } }

/-! ## Visits that only touch calls -/

section Walks

open Walk (Alike)

variable {model : Model} {owner : String} {own : String → Prop}

/-- What becomes of an expression in the two bodies. -/
structure Follows (model : Model) (owner : String) (own : String → Prop)
    (value result result' : Expr) : Prop where
  bound : result' = bound result
  this : result.isThis = value.isThis
  ownMember : result.ownMember? = value.ownMember?
  member : result.memberName? = value.memberName?
  root : result.rootName? = value.rootName?
  placed : value.isThis = false → Placed own result
  keeps : Carried True model owner value → Carried True model owner result
  shows : Carried False model owner result → Carried False model owner value

structure FollowsAll (model : Model) (owner : String) (own : String → Prop)
    (items results results' : List Expr) : Prop where
  bound : results' = boundAll results
  empty : results = [] ↔ items = []
  root : Expr.lastRootName? results = Expr.lastRootName? items
  placed : PlacedAll own results
  keeps : CarriedAll True model owner items → CarriedAll True model owner results
  shows : CarriedAll False model owner results → CarriedAll False model owner items

theorem ownMember?_of_memberName? {value : Expr} (h : value.memberName? = none) :
    value.ownMember? = none := by
  cases value with
  | property => cases h
  | _ => rfl

/-- For an expression that is neither the current instance nor a member there is less to check. -/
theorem Follows.of_placed {value result : Expr} (hvalue : value.isThis = false)
    (hmember : value.memberName? = none) (hmember' : result.memberName? = none)
    (hroot : result.rootName? = value.rootName?) (h : Placed own result)
    (hkeeps : Carried True model owner value → Carried True model owner result)
    (hshows : Carried False model owner result → Carried False model owner value) :
    Follows model owner own value result (Receiver.bound result) where
  bound := rfl
  this := h.not_this.trans hvalue.symm
  ownMember := by rw [ownMember?_of_memberName? hmember, ownMember?_of_memberName? hmember']
  member := hmember'.trans hmember.symm
  root := hroot
  placed := fun _ => h
  keeps := hkeeps
  shows := hshows

theorem Follows.this_refl (span : Span) :
    Follows model owner own (.thisRef span) (.thisRef span) (.ident span Spelling.receiver) where
  bound := rfl
  this := rfl
  ownMember := rfl
  member := rfl
  root := rfl
  placed := nofun
  keeps := fun h => h
  shows := fun h => h

theorem Follows.property {object result result' : Expr} (span : Span) (name : String)
    (h : Follows model owner own object result result') :
    Follows model owner own (.property span object name) (.property span result name)
      (.property span result' name) where
  bound := by rw [h.bound, Receiver.bound]
  this := rfl
  ownMember := by
    have hthis := h.this
    cases object with
    | thisRef place =>
      obtain ⟨place', rfl⟩ := Expr.eq_this hthis
      rfl
    | _ =>
      cases result with
      | thisRef => cases hthis
      | _ => rfl
  member := rfl
  root := rfl
  placed := by
    intro _
    cases hthis : object.isThis with
    | true => exact .inl (h.this.trans hthis)
    | false => exact .inr (h.placed hthis)
  keeps := fun hobject _ => h.keeps (hobject (.inl trivial))
  shows := by
    intro hobject hnames
    refine h.shows (hobject ?_)
    rw [Names.namesModule, h.root]
    exact hnames

/-- A call is followed from its parts on, if it is once they have been visited. -/
theorem Follows.call {span : Span} {callee callee' bound' result result' : Expr}
    {typeArgs : Option (List TypeNode)} {args args' bounds' : List Expr}
    (hcallee : Follows model owner own callee callee' bound')
    (hargs : FollowsAll model owner own args args' bounds')
    (h : Follows model owner own (.call span callee' typeArgs args') result result') :
    Follows model owner own (.call span callee typeArgs args) result result' where
  bound := h.bound
  this := h.this
  ownMember := h.ownMember
  member := h.member
  root := h.root
  placed := h.placed
  keeps := by
    intro hcall
    refine h.keeps ⟨?_, hcallee.keeps hcall.2.1, fun _ => hargs.keeps (hcall.2.2 (.inl trivial))⟩
    rw [hcallee.ownMember]
    exact hcall.1
  shows := by
    intro hresult
    have hcall := h.shows hresult
    refine ⟨?_, hcallee.shows hcall.2.1, fun hname => hargs.shows (hcall.2.2 ?_)⟩
    · rw [← hcallee.ownMember]
      exact hcall.1
    · rw [hcallee.member]
      exact hname

theorem FollowsAll.nil : FollowsAll model owner own [] [] [] where
  bound := rfl
  empty := Iff.rfl
  root := rfl
  placed := trivial
  keeps := fun h => h
  shows := fun h => h

theorem FollowsAll.cons {item item' bound' : Expr} {rest rest' bounds' : List Expr}
    (hitem : Follows model owner own item item' bound') (hthis : item.isThis = false)
    (hrest : FollowsAll model owner own rest rest' bounds') :
    FollowsAll model owner own (item :: rest) (item' :: rest') (bound' :: bounds') where
  bound := by rw [hitem.bound, hrest.bound, boundAll]
  empty := by simp
  root := by
    cases rest with
    | nil =>
      obtain rfl := hrest.empty.mpr rfl
      exact hitem.root
    | cons second others =>
      cases rest' with
      | nil => cases hrest.empty.mp rfl
      | cons second' others' => exact hrest.root
  placed := ⟨hitem.placed hthis, hrest.placed⟩
  keeps := fun h => ⟨hitem.keeps h.1, hrest.keeps h.2⟩
  shows := fun h => ⟨hitem.shows h.1, hrest.shows h.2⟩

/-- A visit that leaves alone whatever is not a call. -/
def OnlyCalls (visit : Expr → Walk.ExprM Expr) : Prop :=
  ∀ value : Expr, value.isCall = false → visit value = pure value

variable {K : String → Prop} {Q : Expr → Prop} {visit visit' : Expr → Walk.ExprM Expr}

/-- Two visits that only touch calls, and that do the same to corresponding calls once their parts
have been visited. -/
structure SameVisits (model : Model) (owner : String) (K own : String → Prop) (Q : Expr → Prop)
    (visit visit' : Expr → Walk.ExprM Expr) : Prop where
  first : OnlyCalls visit
  second : OnlyCalls visit'
  calls : ∀ (span : Span) (callee : Expr) (typeArgs : Option (List TypeNode)) (args : List Expr),
    (∀ name, callee.ownMember? = some name → K name) → Placed own callee → PlacedAll own args →
    Alike bound Q Declarable (Follows model owner own (.call span callee typeArgs args))
      (visit (.call span callee typeArgs args))
      (visit' (.call span (bound callee) typeArgs (boundAll args)))

mutual

/-- What becomes of an expression, if visits only touch calls and do the same there. -/
theorem expr_follows (h : SameVisits model owner K own Q visit visit') : ∀ value : Expr, value.isThis = true ∨ Placed K value →
    Alike bound Q Declarable (Follows model owner own value) (Walk.expr visit value)
      (Walk.expr visit' (bound value))
  | .ident span name, hv => by
    rw [bound, Walk.expr, Walk.expr, h.first _ rfl, h.second _ rfl]
    exact Alike.pure (.of_placed rfl rfl rfl rfl (hv.resolve_left nofun) (fun h => h) fun h => h)
  | .thisRef span, _ => by
    rw [bound, Walk.expr, Walk.expr, h.first _ rfl, h.second _ rfl]
    exact Alike.pure (.this_refl span)
  | .literal span value, _ => by
    rw [bound, Walk.expr, Walk.expr, h.first _ rfl, h.second _ rfl]
    exact Alike.pure (.of_placed rfl rfl rfl rfl trivial (fun h => h) fun h => h)
  | .property span object name, hv => by
    rw [bound, Walk.expr, Walk.expr]
    refine (expr_follows h object (hv.resolve_left nofun)).bind fun object' _ hobject => ?_
    rw [h.first _ rfl, h.second _ rfl]
    exact Alike.pure (hobject.property span name)
  | .call span callee typeArgs args, hv => by
    obtain ⟨hown, hvc, hva⟩ := hv.resolve_left nofun
    rw [bound, Walk.expr, Walk.expr]
    refine (expr_follows h callee (.inr hvc)).bind fun callee' _ hcallee => ?_
    refine (exprs_follows h args hva).bind fun args' _ hargs => ?_
    rw [hcallee.bound, hargs.bound]
    refine (h.calls span callee' typeArgs args' ?_ (hcallee.placed hvc.not_this) hargs.placed).imp
      fun _ _ hresult => hcallee.call hargs hresult
    intro name hname
    exact hown name (hcallee.ownMember ▸ hname)
  | .new span target args, hv => by
    rw [bound, Walk.expr, Walk.expr]
    refine (exprs_follows h args (hv.resolve_left nofun)).bind fun args' _ hargs => ?_
    rw [h.first _ rfl, h.second _ rfl, hargs.bound]
    exact Alike.pure (.of_placed rfl rfl rfl rfl hargs.placed hargs.keeps hargs.shows)
  | .binary span op left right, hv => by
    obtain ⟨hvl, hvr⟩ := hv.resolve_left nofun
    rw [bound, Walk.expr, Walk.expr]
    refine (expr_follows h left (.inr hvl)).bind fun left' _ hleft => ?_
    refine (expr_follows h right (.inr hvr)).bind fun right' _ hright => ?_
    rw [h.first _ rfl, h.second _ rfl, hleft.bound, hright.bound]
    refine Alike.pure (.of_placed rfl rfl rfl ?_
      ⟨hleft.placed hvl.not_this, hright.placed hvr.not_this⟩
      (fun h => ⟨hleft.keeps h.1, hright.keeps h.2⟩) fun h => ⟨hleft.shows h.1, hright.shows h.2⟩)
    rw [Expr.rootName?, Expr.rootName?, hleft.root]
  | .unary span op operand, hv => by
    have hvo : Placed K operand := hv.resolve_left nofun
    rw [bound, Walk.expr, Walk.expr]
    refine (expr_follows h operand (.inr hvo)).bind fun operand' _ hoperand => ?_
    rw [h.first _ rfl, h.second _ rfl, hoperand.bound]
    refine Alike.pure (.of_placed rfl rfl rfl ?_ (hoperand.placed hvo.not_this) hoperand.keeps
      hoperand.shows)
    rw [Expr.rootName?, Expr.rootName?, hoperand.root]
  | .paren span inner, hv => by
    have hvi : Placed K inner := hv.resolve_left nofun
    rw [bound, Walk.expr, Walk.expr]
    refine (expr_follows h inner (.inr hvi)).bind fun inner' _ hinner => ?_
    rw [h.first _ rfl, h.second _ rfl, hinner.bound]
    exact Alike.pure (.of_placed rfl rfl rfl hinner.root (hinner.placed hvi.not_this) hinner.keeps
      hinner.shows)
  | .comma span items, hv => by
    rw [bound, Walk.expr, Walk.expr]
    refine (exprs_follows h items (hv.resolve_left nofun)).bind fun items' _ hitems => ?_
    rw [h.first _ rfl, h.second _ rfl, hitems.bound]
    exact Alike.pure (.of_placed rfl rfl rfl hitems.root hitems.placed hitems.keeps hitems.shows)
  | .receiverCall span target method [], _ => by
    rw [bound, boundAll, Walk.expr, Walk.expr, Walk.exprs, Walk.exprs, pure_bind, pure_bind,
      h.first _ rfl, h.second _ rfl]
    exact Alike.pure (.of_placed rfl rfl rfl rfl trivial (fun h => h) fun h => h)
  | .receiverCall span target method (first :: rest), hv => by
    -- The current instance may be passed on, and stays.
    obtain ⟨hvf, hvr⟩ := hv.resolve_left nofun
    rw [bound, boundAll, Walk.expr, Walk.expr, Walk.exprs, Walk.exprs]
    simp only [bind_assoc, pure_bind]
    refine (expr_follows h first hvf).bind fun first' _ hfirst => ?_
    refine (exprs_follows h rest hvr).bind fun rest' _ hrest => ?_
    rw [h.first _ rfl, h.second _ rfl, hfirst.bound, hrest.bound]
    refine Alike.pure (.of_placed rfl rfl rfl rfl ⟨?_, hrest.placed⟩ ?_ ?_)
    · rcases hvf with hthis | hvf
      · exact .inl (hfirst.this.trans hthis)
      · exact .inr (hfirst.placed hvf.not_this)
    · intro hcall
      refine ⟨?_, hfirst.keeps hcall.2.1, hrest.keeps hcall.2.2⟩
      intro head hhead hthis
      cases hhead
      exact hcall.1 first rfl (hfirst.this ▸ hthis)
    · intro hcall
      refine ⟨?_, hfirst.shows hcall.2.1, hrest.shows hcall.2.2⟩
      intro head hhead hthis
      cases hhead
      exact hcall.1 first' rfl (hfirst.this.trans hthis)

theorem exprs_follows (h : SameVisits model owner K own Q visit visit') : ∀ items : List Expr,
    PlacedAll K items →
    Alike bound Q Declarable (FollowsAll model owner own items) (Walk.exprs visit items)
      (Walk.exprs visit' (boundAll items))
  | [], _ => by
    rw [boundAll, Walk.exprs, Walk.exprs]
    exact Alike.pure .nil
  | item :: rest, hv => by
    rw [boundAll, Walk.exprs, Walk.exprs]
    refine (expr_follows h item (.inr hv.1)).bind fun item' _ hitem => ?_
    refine (exprs_follows h rest hv.2).bind fun rest' _ hrest => ?_
    exact Alike.pure (.cons hitem hv.1.not_this hrest)

end

end Walks

/-! ## Making receivers explicit -/

section Inject

open Walk (Alike)

variable {model : Model} {owner : String} {locals locals' : Locals}

/-- The name of the built-in that takes an address is not the receiver's. -/
def AddressNamed (model : Model) : Prop :=
  ∀ symbol, model.builtin? .addressOf = some symbol → symbol.name ≠ Spelling.receiver

theorem argument_value {object : Expr} (h : object.isThis = false) (type : Ty) :
    argument model owner object type =
      match type with
      | .pointer _ => .ok object
      | .classTy _ => if model.isSharedClass owner then .ok object else addressOf model object
      | _ => addressOf model object := by
  cases object with
  | thisRef span => cases h
  | _ => cases type <;> rfl

theorem addressOf_bound (hnamed : AddressNamed model) {object result : Expr}
    (hobject : Placed (NotOwn model owner) object) (h : addressOf model object = .ok result) :
    Placed (NotOwn model owner) result ∧ addressOf model (bound object) = .ok (bound result) := by
  unfold addressOf builtinCallee at h ⊢
  cases hb : model.builtin? .addressOf with
  | none =>
    rw [hb] at h
    cases h
  | some symbol =>
    rw [hb] at h
    cases h
    exact ⟨⟨nofun, hnamed symbol hb, hobject, trivial⟩, by rw [bound_span]; rfl⟩

theorem argument_bound (hnamed : AddressNamed model) {target : String} {object result : Expr}
    {type : Ty} (hobject : Placed (NotOwn model owner) object)
    (h : argument model target object type = .ok result) :
    Placed (NotOwn model owner) result ∧ argument model target (bound object) type = .ok (bound result) := by
  rw [argument_value hobject.not_this] at h
  rw [argument_value hobject.bound_not_this]
  have haddress (h : addressOf model object = .ok result) := addressOf_bound hnamed hobject h
  cases type with
  | pointer inner =>
    cases h
    exact ⟨hobject, rfl⟩
  | classTy name =>
    dsimp only at h ⊢
    split at h
    · rename_i hshared
      cases h
      exact ⟨hobject, if_pos hshared⟩
    · rename_i hshared
      rw [if_neg hshared]
      exact haddress h
  | _ => exact haddress h

/-- What is passed for an object is the object or its address. -/
theorem argument_cases {target : String} {object result : Expr} {type : Ty}
    (h : argument model target object type = .ok result) :
    result = object ∨
      ∃ name, result = .call object.span (.ident object.span name) none [object] := by
  have haddress (h : addressOf model object = .ok result) :
      ∃ name, result = .call object.span (.ident object.span name) none [object] := by
    unfold addressOf builtinCallee at h
    cases hb : model.builtin? .addressOf with
    | none =>
      rw [hb] at h
      cases h
    | some symbol =>
      rw [hb] at h
      cases h
      exact ⟨symbol.name, rfl⟩
  unfold argument at h
  split at h
  · exact .inl (Except.ok.inj h).symm
  · exact .inl (Except.ok.inj h).symm
  · split at h
    · exact .inl (Except.ok.inj h).symm
    · exact .inr (haddress h)
  · exact .inr (haddress h)

theorem argument_carried {whole : Prop} {target : String} {object result : Expr} {type : Ty}
    (h : argument model target object type = .ok result) :
    Carried whole model owner result ↔ Carried whole model owner object := by
  rcases argument_cases h with rfl | ⟨name, rfl⟩
  · exact Iff.rfl
  · constructor
    · intro hcall
      exact (hcall.2.2 (.inr nofun)).1
    · intro hobject
      exact ⟨nofun, trivial, fun _ => ⟨hobject, trivial⟩⟩

/-- A visit that makes receivers explicit. -/
abbrev injecting (model : Model) : Walk.Visit := fun locals value =>
  liftM (injectCall model locals value)

theorem injecting_onlyCalls : OnlyCalls (injecting model locals) := by
  intro value hvalue
  cases value with
  | call => cases hvalue
  | _ => rfl

variable [model.Typed]

/-- One call becomes the same call in both bodies. -/
theorem injectCall_bound (hnamed : AddressNamed model) (h : Rebinding owner locals locals')
    {span : Span} {callee result : Expr} {typeArgs : Option (List TypeNode)} {args : List Expr}
    (hown : ∀ name, callee.ownMember? = some name → SparesOwn model owner name)
    (hcallee : Placed (NotOwn model owner) callee) (hargs : PlacedAll (NotOwn model owner) args)
    (hrun : injectCall model locals (.call span callee typeArgs args) = .ok result) :
    Placed (NotOwn model owner) result ∧
      injectCall model locals' (.call span (bound callee) typeArgs (boundAll args))
        = .ok (bound result) := by
  cases callee with
  | property place object name =>
    simp only [injectCall] at hrun
    simp only [bound, injectCall]
    by_cases hd : name = Spelling.destructor
    · rw [if_pos hd] at hrun ⊢
      cases hrun
      refine ⟨⟨fun other ho => ?_, hcallee, hargs⟩, rfl⟩
      -- The own destructor is called only if the class has none.
      cases object with
      | thisRef place' =>
        cases ho
        subst hd
        exact hown _ rfl rfl
      | _ => cases ho
    · rw [if_neg hd] at hrun ⊢
      rcases hcallee with hthis | hobject
      · -- On the current instance: the pointer leads to the same class.
        obtain ⟨place', rfl⟩ := Expr.eq_this hthis
        have howner : owningClass model name span (.pointer (.classTy owner))
            = owningClass model name span (.classTy owner) := rfl
        rw [h.typeOf_this] at hrun
        rw [bound, h.typeOf_receiver, howner]
        unfold owningClass at hrun ⊢
        cases hm : (model.classInfo? owner).bind (·.method? name) with
        | none =>
          simp only [hm] at hrun ⊢
          cases hrun
          refine ⟨⟨fun other ho => ?_, .inl rfl, hargs⟩, rfl⟩
          cases ho
          simp [NotOwn, Names.declaresMethod, hm]
        | some method =>
          simp only [hm] at hrun ⊢
          cases hrun
          exact ⟨⟨.inl rfl, hargs⟩, rfl⟩
      · -- On any other object: the types agree, and so does what is passed.
        rw [typeOf_bound h object hobject]
        obtain ⟨target, htarget, hrest⟩ := Lowered.bind_eq_ok.mp hrun
        rw [htarget]
        cases target with
        | none =>
          cases hrest
          refine ⟨⟨fun other ho => ?_, .inr hobject, hargs⟩, rfl⟩
          cases object <;> cases ho
          exact hobject.elim
        | some target =>
          obtain ⟨receiver, hreceiver, hresult⟩ := Lowered.bind_eq_ok.mp hrest
          cases hresult
          obtain ⟨hrebound, hreceiver'⟩ := argument_bound hnamed hobject hreceiver
          refine ⟨⟨.inr hrebound, hargs⟩, ?_⟩
          show (argument model target (bound object) _ >>= _) = _
          rw [hreceiver']
          rfl
  | thisRef place => exact hcallee.elim
  | _ =>
    cases hrun
    exact ⟨⟨nofun, hcallee, hargs⟩, rfl⟩

/-- Making a call explicit gives the current instance away exactly where a method is called on it. -/
theorem injectCall_carried (hthis : locals.thisClass = some owner) {span : Span}
    {callee result : Expr} {typeArgs : Option (List TypeNode)} {args : List Expr}
    (hrun : injectCall model locals (.call span callee typeArgs args) = .ok result) :
    result.memberName? = none ∧ result.rootName? = none ∧
      (Carried True model owner (.call span callee typeArgs args) → Carried True model owner result) ∧
      (Carried False model owner result →
        Carried False model owner (.call span callee typeArgs args)) := by
  have hstay : result = .call span callee typeArgs args → result.memberName? = none ∧
      result.rootName? = none ∧
      (Carried True model owner (.call span callee typeArgs args) → Carried True model owner result) ∧
      (Carried False model owner result →
        Carried False model owner (.call span callee typeArgs args)) := by
    rintro rfl
    exact ⟨rfl, rfl, fun h => h, fun h => h⟩
  cases callee with
  | property place object name =>
    simp only [injectCall] at hrun
    by_cases hd : name = Spelling.destructor
    · rw [if_pos hd] at hrun
      exact hstay (Except.ok.inj hrun).symm
    · rw [if_neg hd] at hrun
      obtain ⟨target, htarget, hrest⟩ := Lowered.bind_eq_ok.mp hrun
      cases target with
      | none => exact hstay (Except.ok.inj hrest).symm
      | some target =>
        obtain ⟨receiver, hreceiver, hresult⟩ := Lowered.bind_eq_ok.mp hrest
        cases hresult
        refine ⟨rfl, rfl, ?_, ?_⟩
        · intro hcall
          obtain ⟨hown, hobject, hargs⟩ := hcall
          have hobject := hobject (.inl trivial)
          refine ⟨?_, (argument_carried hreceiver).mpr hobject, hargs (.inl trivial)⟩
          -- The receiver is the current instance only if the object was.
          intro first hfirst hfirstThis
          cases hfirst
          rcases argument_cases hreceiver with rfl | ⟨_, rfl⟩
          · obtain ⟨place', rfl⟩ := Expr.eq_this hfirstThis
            have hclass : model.typeOf locals (.thisRef place') = .classTy owner := by
              rw [model.typeOf_thisRef, hthis, Option.elim_some]
            rw [hclass, owningClass] at htarget
            split at htarget
            · rename_i method hmethod
              exact (hown name rfl (by simp [Names.declaresMethod, hmethod])).2
            · cases htarget
          · cases hfirstThis
        · intro hcall
          obtain ⟨hfirst, hparts⟩ := hcall
          refine ⟨?_, fun _ => (argument_carried hreceiver).mp hparts.1, fun _ => hparts.2⟩
          intro other ho hdeclares
          cases object with
          | thisRef place' =>
            cases ho
            obtain rfl : receiver = .thisRef place' := by
              unfold argument at hreceiver
              exact (Except.ok.inj hreceiver).symm
            exact ⟨hd, hfirst _ rfl rfl⟩
          | _ => cases ho
  | _ => exact hstay (Except.ok.inj hrun).symm

theorem injecting_same (hnamed : AddressNamed model) (h : Rebinding owner locals locals')
    (Q : Expr → Prop) :
    SameVisits model owner (SparesOwn model owner) (NotOwn model owner) Q (injecting model locals)
      (injecting model locals') where
  first := injecting_onlyCalls
  second := injecting_onlyCalls
  calls := by
    intro span callee typeArgs args hown hcallee hargs
    refine Alike.lift fun result hrun => ?_
    obtain ⟨hresult, hrun'⟩ := injectCall_bound hnamed h hown hcallee hargs hrun
    obtain ⟨hmember, hroot, hkeeps, hshows⟩ := injectCall_carried h.this hrun
    exact ⟨_, hrun', .of_placed rfl rfl hmember hroot hresult hkeeps hshows⟩

end Inject

/-! ## Variables for operands -/

section Materialize

open Walk (Alike)
open Address (materializeCall isBuiltinCall throughTemporary)

variable {model : Model} {owner : String} {own : String → Prop} {locals locals' : Locals}

theorem temporary_ne_receiver (n : Nat) : Spelling.temporary n ≠ Spelling.receiver := by
  intro h
  have hfirst := congrArg (fun name => name.toList.head?) h
  simp [Spelling.temporary, Spelling.temporaryStem, Spelling.receiver] at hfirst

theorem isBuiltinCall_bound {callee : Expr} (h : Placed own callee)
    (builtin : Vocabulary.Builtin) :
    isBuiltinCall model builtin (bound callee) = isBuiltinCall model builtin callee := by
  cases callee with
  | thisRef span => exact h.elim
  | _ => rfl

/-- The operand goes to the assignment, and the callee to the call on the variable. -/
theorem throughTemporary_follows {callee operand : Expr} (hcallee : Placed own callee)
    (hoperand : Placed own operand) (hown : ∀ name, callee.ownMember? = some name → own name)
    (span : Span) (n : Nat) (typeArgs : Option (List TypeNode)) :
    Follows model owner own (.call span callee typeArgs [operand])
      (throughTemporary span (Spelling.temporary n) operand callee typeArgs)
      (throughTemporary span (Spelling.temporary n) (bound operand) (bound callee) typeArgs) := by
  have hbound : throughTemporary span (Spelling.temporary n) (bound operand) (bound callee) typeArgs
      = bound (throughTemporary span (Spelling.temporary n) operand callee typeArgs) := by
    simp only [throughTemporary, bound, boundAll, bound_span]
  have hname := temporary_ne_receiver n
  rw [hbound]
  refine .of_placed rfl rfl rfl rfl ⟨⟨hname, hoperand⟩, ⟨hown, hcallee, hname, trivial⟩, trivial⟩
    ?_ ?_
  · intro hcall
    exact ⟨⟨trivial, (hcall.2.2 (.inl trivial)).1⟩,
      ⟨hcall.1, hcall.2.1, fun _ => ⟨trivial, trivial⟩⟩, trivial⟩
  · intro hcall
    obtain ⟨⟨-, hoperand⟩, ⟨hown, hcallee, -⟩, -⟩ := hcall
    exact ⟨hown, hcallee, fun _ => ⟨hoperand, trivial⟩⟩

theorem materializing_onlyCalls : OnlyCalls (materializeCall model locals) := by
  intro value hvalue
  cases value with
  | call => cases hvalue
  | _ => rfl

theorem materializing_same [model.Typed] (h : Rebinding owner locals locals') (Q : Expr → Prop) :
    SameVisits model owner (NotOwn model owner) (NotOwn model owner) Q
      (materializeCall model locals) (materializeCall model locals') where
  first := materializing_onlyCalls
  second := materializing_onlyCalls
  calls := by
    intro span callee typeArgs args hown hcallee hargs
    have hstay : Follows model owner (NotOwn model owner) (.call span callee typeArgs args)
        (.call span callee typeArgs args) (.call span (bound callee) typeArgs (boundAll args)) :=
      .of_placed rfl rfl rfl rfl ⟨hown, hcallee, hargs⟩ (fun h => h) fun h => h
    match args with
    | [] => exact Alike.pure hstay
    | _ :: _ :: _ => exact Alike.pure hstay
    | [operand] =>
      have hoperand := hargs.1
      simp only [boundAll, materializeCall, isBuiltinCall_bound hcallee,
        isAddressable_bound operand hoperand, typeOf_bound h operand hoperand, bound_span]
      split
      · cases htype : (model.typeOf locals operand).toTypeNode? operand.span with
        | none =>
          intro pending after result hrun
          cases hrun
        | some type =>
          -- The counter decides the name, so both bodies get the same variable.
          intro pending after result hrun
          simp only [Lowered.run_bind, Lowered.run_get, Lowered.run_set, Lowered.run_pure] at hrun
          obtain ⟨_, _, ⟨rfl, rfl⟩, _, _, rfl, rfl, rfl⟩ := hrun
          refine ⟨_, [Address.declaration operand.span (Spelling.temporary _) type],
            throughTemporary_follows hcallee hoperand hown span _ typeArgs, ?_, rfl,
            fun earlier => rfl⟩
          refine ⟨?_, trivial⟩
          intro decl hdecl
          obtain rfl := List.mem_singleton.mp hdecl
          exact ⟨⟨fun heq => temporary_ne_receiver _ (Option.some.inj heq), rfl⟩, nofun⟩
      · exact Alike.pure hstay

end Materialize

/-! ## All passes -/

section Bodies

open Stmt (AllList mapList)
open Walk (Alike)

variable {model : Model} {owner : String} {own : String → Prop} {locals locals' : Locals}
  {passes : PassSet}

/-- No pass drops an annotation. -/
theorem annotations_kept (policy : DestructorPolicy) (hreceiver : passes.receiver = true)
    {body lowered : List Stmt} (h : passes.run model policy locals body = .ok lowered)
    (hlowered : AllList (fun _ => True) (fun _ type => type.isSome) lowered) :
    AllList (fun _ => True) (fun _ type => type.isSome) body := by
  have htrivial (stmts : List Stmt) : AllList (fun _ => True) (fun _ _ => True) stmts :=
    Stmt.allList_iff.mpr fun stmt _ => stmt.all_trivial
  refine (passes_transport (P := fun _ => True) (Q := fun _ => True) (D := fun _ _ => True) policy
    (by simp [hreceiver]) (.refl model _ _) (.refl model _ _) ?_ ?_ ?_ rfl (htrivial body) h).2.2
    hlowered
  · intro span name type _
    exact ⟨trivial, Stmt.mapExprs_id _⟩
  · exact .unary fun _ _ _ _ _ before _ _ => ⟨trivial, htrivial before⟩
  · exact .unary fun _ _ _ _ _ before _ _ => ⟨trivial, htrivial before⟩

/-- What an expression of a statement has to be like: it is the call of the own destructor, or does
not contain one. If the whole is asked for, it is carried over as well. -/
def Fits (whole : Prop) (model : Model) (owner : String) (own : String → Prop) (value : Expr) :
    Prop :=
  (value.isOwnDestruction = true ∨ Placed own value) ∧ (whole → Carried True model owner value)

theorem eq_destruction {value : Expr} (h : value.isOwnDestruction = true) :
    ∃ span place place' typeArgs,
      value = .call span (.property place (.thisRef place') Spelling.destructor) typeArgs [] := by
  unfold Expr.isOwnDestruction at h
  split at h
  · rename_i span place place' name typeArgs
    exact ⟨span, place, place', typeArgs, by rw [of_decide_eq_true h]⟩
  · cases h

/-- The call of a destructor is not visited, whatever it is called on. -/
theorem expr_destruction {visit : Expr → Walk.ExprM Expr} (h : OnlyCalls visit) {object : Expr}
    (hobject : Walk.expr visit object = pure object) {span place : Span}
    {typeArgs : Option (List TypeNode)}
    (hcall : visit (.call span (.property place object Spelling.destructor) typeArgs [])
      = pure (.call span (.property place object Spelling.destructor) typeArgs [])) :
    Walk.expr visit (.call span (.property place object Spelling.destructor) typeArgs [])
      = pure (.call span (.property place object Spelling.destructor) typeArgs []) := by
  rw [Walk.expr, Walk.expr, Walk.exprs, hobject, pure_bind, h _ rfl, pure_bind, pure_bind, hcall]

theorem destruction_alike {K : String → Prop} {Q : Expr → Prop}
    {visit visit' : Expr → Walk.ExprM Expr} (h : SameVisits model owner K own Q visit visit')
    {value : Expr} (hvalue : value.isOwnDestruction = true)
    (hcall : visit value = pure value) (hcall' : visit' (bound value) = pure (bound value))
    {R : Expr → Expr → Prop} (hR : R value (bound value)) :
    Alike bound Q Declarable R (Walk.expr visit value) (Walk.expr visit' (bound value)) := by
  obtain ⟨span, place, place', typeArgs, rfl⟩ := eq_destruction hvalue
  have hthis : Walk.expr visit (.thisRef place') = pure (.thisRef place') := by
    rw [Walk.expr, h.first _ rfl]
  have hreceiver : Walk.expr visit' (.ident place' Spelling.receiver)
      = pure (.ident place' Spelling.receiver) := by
    rw [Walk.expr, h.second _ rfl]
  simp only [bound, boundAll] at hcall' hR ⊢
  rw [expr_destruction h.first hthis hcall, expr_destruction h.second hreceiver hcall']
  exact Alike.pure hR

/-- A visit that does the same to both bodies carries the expressions of statements along. -/
theorem fits_transport {K : String → Prop} {whole : Prop} {visit : Walk.Visit}
    (hsame : ∀ locals locals', Rebinding owner locals locals' → ∀ Q,
      SameVisits model owner K own Q (visit locals) (visit locals'))
    (hcall : ∀ locals span place object typeArgs,
      visit locals (.call span (.property place object Spelling.destructor) typeArgs [])
        = pure (.call span (.property place object Spelling.destructor) typeArgs [])) :
    Walk.VisitTransport bound (Rebinding owner) (Fits whole model owner K)
      (Fits whole model owner own) Declarable (Carried False model owner)
      (Carried False model owner) visit visit := by
  refine .of_alike fun locals locals' value h hvalue => ?_
  obtain ⟨hdestruction | hplaced, hwhole⟩ := hvalue
  · refine destruction_alike (hsame _ _ h _) hdestruction ?_ ?_
      ⟨rfl, ⟨.inl hdestruction, hwhole⟩, fun hshown => hshown⟩
    · obtain ⟨span, place, place', typeArgs, rfl⟩ := eq_destruction hdestruction
      exact hcall _ _ _ _ _
    · obtain ⟨span, place, place', typeArgs, rfl⟩ := eq_destruction hdestruction
      exact hcall _ _ _ _ _
  · refine (expr_follows (hsame _ _ h _) value (.inr hplaced)).imp fun result _ hresult => ?_
    exact ⟨hresult.bound, ⟨.inr (hresult.placed hplaced.not_this), fun hw =>
      hresult.keeps (hwhole hw)⟩, hresult.shows⟩

/-- **The passes do the same to both bodies**, if the annotations are complete in the end, and lose
nothing that the current instance is asked for. -/
theorem bodies_transport [model.Typed] (hnamed : AddressNamed model) (policy : DestructorPolicy)
    (hreceiver : passes.receiver = true) (hlocals : Rebinding owner locals locals') {whole : Prop}
    {body lowered : List Stmt}
    (hbody : AllList (Fits whole model owner (SparesOwn model owner))
      (fun name _ => name.ident? ≠ some Spelling.receiver) body)
    (h : passes.run model policy locals body = .ok lowered)
    (hannotated : AllList (fun _ => True) (fun _ type => type.isSome) lowered) :
    AllList (Fits whole model owner (NotOwn model owner)) Declarable lowered ∧
      passes.run model policy locals' (mapList bound body) = .ok (mapList bound lowered) ∧
      (AllList (Carried False model owner) (fun _ _ => True) lowered →
        AllList (Carried False model owner) (fun _ _ => True) body) := by
  have hall : AllList (Fits whole model owner (SparesOwn model owner)) Declarable body := by
    have hsome := annotations_kept policy hreceiver h hannotated
    exact (hbody.and hsome).imp (fun _ hv => hv.1) fun _ _ hd => hd
  have hfit : Cleanup.CallsFit bound (Fits whole model owner (SparesOwn model owner))
      Declarable := by
    rintro span name type ⟨hname, -⟩
    have hne : name ≠ Spelling.receiver := fun heq => hname (congrArg some heq)
    refine ⟨⟨.inr ⟨nofun, .inr hne, trivial⟩, fun _ => ⟨nofun, fun _ => trivial, fun _ => trivial⟩⟩,
      rfl⟩
  refine passes_transport policy (by simp [hreceiver]) (Rebinding.tracks model owner _)
    (Rebinding.tracks model owner _) hfit ?_ ?_ hlocals hall h
  · refine fits_transport (fun locals locals' h Q => injecting_same hnamed h Q) ?_
    intro locals span place object typeArgs
    simp only [injectCall, if_pos]
    rfl
  · exact fits_transport (fun locals locals' h Q => materializing_same h Q) fun _ _ _ _ _ => rfl

end Bodies

end Receiver
end NativeLowering
