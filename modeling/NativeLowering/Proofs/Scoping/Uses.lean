import NativeLowering.Proofs.Emit.ExprText
import NativeLowering.Proofs.Pass.Repeat
import NativeLowering.Proofs.Receiver.Binding
import NativeLowering.Proofs.Scoping.Passes

/-!
# What the names of an expression stand for

An expression is written only if each name it uses stands for something: for a variable in scope,
or else for a global (`Emit.exprText_resolves`). Nothing else is looked at, so a variable whose block
has ended cannot be meant.

The passes lose no use of a name (`PassSet.Becomes.uses`). What is known of the names in the text is
known of those in the source.
-/

set_option autoImplicit false

namespace NativeLowering

/-! ## Uses -/

namespace Expr

section Uses

variable (model : Model)

mutual

/-- The names whose meaning goes into the text of an expression. In the place of a module stands the
name of that module, whatever the expression for it looks like. The arguments of a destructor call
are not counted, since a destructor is called without any. -/
def uses : Expr → List String
  | .ident _ name => [name]
  | .thisRef _ | .literal .. => []
  | .property _ object _ =>
    if model.namesModule object then object.rootName?.toList else object.uses
  | .call _ callee _ args =>
    callee.uses ++ if callee.memberName? = some Spelling.destructor then [] else usesAll args
  | .new _ _ args => usesAll args
  | .binary _ _ left right => left.uses ++ right.uses
  | .unary _ _ operand => operand.uses
  | .paren _ inner => inner.uses
  | .comma _ items => usesAll items
  | .receiverCall _ _ _ args => usesAll args

def usesAll : List Expr → List String
  | [] => []
  | item :: rest => item.uses ++ usesAll rest

end

end Uses

variable {model : Model}

theorem mem_usesAll {items : List Expr} {name : String} :
    name ∈ usesAll model items ↔ ∃ item ∈ items, name ∈ item.uses model := by
  induction items with
  | nil => simp [usesAll]
  | cons item rest ih => simp [usesAll, ih]

theorem lastRootName?_eq_some {items : List Expr} {name : String}
    (h : lastRootName? items = some name) : ∃ item ∈ items, item.rootName? = some name := by
  induction items with
  | nil => cases h
  | cons first rest ih =>
    cases rest with
    | nil => exact ⟨first, by simp, h⟩
    | cons second rest =>
      obtain ⟨item, hitem, hname⟩ := ih h
      exact ⟨item, by simp [hitem], hname⟩

/-- The name that an expression has its type from is used in it. -/
theorem rootName?_mem_uses {value : Expr} {name : String} (h : value.rootName? = some name) :
    name ∈ value.uses model := by
  induction value using Expr.ind with
  | ident span other =>
    cases h
    simp [uses]
  | thisRef | literal | property | call | new | receiverCall => cases h
  | binary span op left right hleft hright =>
    rw [rootName?] at h
    split at h
    · cases h
    · simp [uses, hleft h]
  | unary span op operand hoperand =>
    rw [rootName?] at h
    split at h
    · cases h
    · exact hoperand h
  | paren span inner hinner => exact hinner h
  | comma span items hitems =>
    obtain ⟨item, hitem, hname⟩ := lastRootName?_eq_some h
    exact mem_usesAll.mpr ⟨item, hitem, hitems item hitem hname⟩

theorem mem_uses_property {span : Span} {object : Expr} {member name : String}
    (h : name ∈ (Expr.property span object member).uses model) : name ∈ object.uses model := by
  rw [uses] at h
  split at h
  · exact rootName?_mem_uses (Option.mem_toList.mp h)
  · exact h

end Expr

/-! ## Writing -/

/-- No variable stands for a module. -/
def Locals.Moduleless (locals : Locals) : Prop :=
  ∀ name specifier, locals.lookup? name ≠ some (.moduleTy specifier)

namespace Locals.Moduleless

variable {locals : Locals}

theorem start (thisClass : Option String) : (Locals.start thisClass).Moduleless :=
  fun _ _ h => nomatch h

theorem push (h : locals.Moduleless) (kind : FrameKind) : (locals.push kind).Moduleless := h

/-- An annotation denotes no module. -/
theorem declare (h : locals.Moduleless) (model : Model) [model.Typed] (name : String)
    (node : TypeNode) :
    (locals.declare name (model.typeFromNode node)).Moduleless := by
  intro other specifier hother
  by_cases hopen : locals.frames = []
  · rw [declare_of_no_frame hopen] at hother
    exact h other specifier hother
  · rw [lookup?_declare hopen] at hother
    split at hother
    · exact model.typeFromNode_ne_module node specifier (Option.some.inj hother)
    · exact h other specifier hother

end Locals.Moduleless

namespace Emit

variable {cx : Context} {locals : Locals}

/-- The name stands for a variable in scope or for a global. -/
def Resolves (cx : Context) (locals : Locals) (name : String) : Prop :=
  locals.binds name = true ∨ ∃ symbol, cx.model.resolve? name = some symbol

theorem identText_resolves {name text : String} {span : Span}
    (h : identText cx locals name span = .ok text) : Resolves cx locals name := by
  rw [identText_eq] at h
  split at h
  · rename_i hbound
    exact .inl hbound
  · split at h
    · cases h
    · rename_i symbol hsymbol
      exact .inr ⟨symbol, hsymbol⟩

/-! ### Objects and calls -/

/-- The object of a member has been written, or there was no need to: it is the current instance or
stands for a module. -/
def Reached (cx : Context) (locals : Locals) (object : Expr) (objectText : Lowered String) : Prop :=
  object.isThis = true ∨ (∃ specifier, cx.model.typeOf locals object = .moduleTy specifier) ∨
    ∃ text, objectText = .ok text

section Inversion

variable {object : Expr} {member text : String} {span : Span} {objectText : Lowered String}

theorem memberText_reached {owner : Ty}
    (h : memberText cx locals object owner member span objectText = .ok text) :
    Reached cx locals object objectText := by
  unfold memberText at h
  split at h
  · rename_i hthis
    exact .inl hthis
  · obtain ⟨_, -, h⟩ := Lowered.bind_eq_ok.mp h
    obtain ⟨text, htext, -⟩ := Lowered.bind_eq_ok.mp h
    exact .inr (.inr ⟨text, htext⟩)

theorem propertyText_reached
    (h : propertyText cx locals object member span objectText = .ok text) :
    Reached cx locals object objectText := by
  unfold propertyText at h
  split at h
  · rename_i hthis
    exact .inl hthis
  · split at h
    · rename_i specifier hmodule
      exact .inr (.inl ⟨specifier, hmodule⟩)
    · exact memberText_reached h

variable {args : List Expr} {argTexts : Lowered (List String)}

theorem ordinaryCall_reached
    (h : (do
      let callee ← propertyText cx locals object member span objectText
      let texts ← argTexts
      return callee ++ argList texts) = .ok text) :
    Reached cx locals object objectText ∧ ∃ texts, argTexts = .ok texts := by
  obtain ⟨callee, hcallee, h⟩ := Lowered.bind_eq_ok.mp h
  obtain ⟨texts, htexts, -⟩ := Lowered.bind_eq_ok.mp h
  exact ⟨propertyText_reached hcallee, texts, htexts⟩

/-- Only the destructor of a class is called without its arguments. -/
theorem methodCallText_reached
    (h : methodCallText cx locals object member span objectText argTexts = .ok text) :
    Reached cx locals object objectText ∧
      (member = Spelling.destructor ∨ ∃ texts, argTexts = .ok texts) := by
  unfold methodCallText at h
  dsimp only at h
  split at h
  · split at h
    · cases h
    · split at h
      · rename_i hdestructor
        obtain ⟨callee, hcallee, -⟩ := Lowered.bind_eq_ok.mp h
        exact ⟨memberText_reached hcallee, .inl hdestructor.1⟩
      · split at h
        · cases h
        · exact (ordinaryCall_reached h).imp id .inr
  · split at h
    · exact (ordinaryCall_reached h).imp id .inr
    · cases h
  · cases h
  · exact (ordinaryCall_reached h).imp id .inr

theorem map_ok {α β : Type} {computed : Lowered α} {change : α → β} {result : β}
    (h : computed.map change = .ok result) : ∃ value, computed = .ok value := by
  obtain ⟨value, hvalue, -⟩ := Lowered.map_eq_ok.mp h
  exact ⟨value, hvalue⟩

theorem functionCallText_reached {name : String} {typeArgs : Option (List TypeNode)}
    (h : functionCallText cx name span typeArgs args argTexts = .ok text) :
    (∃ symbol, cx.model.resolve? name = some symbol) ∧
      (args = [] ∨ ∃ texts, argTexts = .ok texts) := by
  unfold functionCallText at h
  split at h
  · cases h
  · rename_i symbol hsymbol
    refine ⟨⟨symbol, hsymbol⟩, ?_⟩
    split at h
    · cases h
    · split at h
      · unfold addressText at h
        split at h
        · split at h
          · exact .inr (map_ok h)
          · cases h
        · cases h
      · unfold sizeText at h
        split at h
        · exact .inl rfl
        · exact .inr (map_ok h)
        · cases h
      · unfold plainCallText at h
        split at h
        · cases h
        · exact .inr (map_ok h)
      · unfold plainCallText at h
        split at h
        · cases h
        · exact .inr (map_ok h)
      · unfold conversionText at h
        split at h
        · exact .inr (map_ok h)
        · cases h

theorem newText_reached {target : Expr}
    (h : newText cx target span argTexts = .ok text) : ∃ texts, argTexts = .ok texts := by
  unfold newText at h
  split at h
  · split at h
    · cases h
    · obtain ⟨texts, htexts, -⟩ := Lowered.bind_eq_ok.mp h
      exact ⟨texts, htexts⟩
  · cases h

theorem receiverCallText_reached {owner method : String}
    (h : receiverCallText cx locals owner method args span argTexts = .ok text) :
    ∃ texts, argTexts = .ok texts := by
  unfold receiverCallText at h
  split at h
  · cases h
  · split at h
    · cases h
    · obtain ⟨texts, htexts, -⟩ := Lowered.bind_eq_ok.mp h
      exact ⟨texts, htexts⟩

end Inversion

/-! ### Expressions -/

/-- If the expression can be written, its names stand for something. -/
def Resolved (cx : Context) (locals : Locals) (value : Expr) : Prop :=
  ∀ text, exprText cx locals value = .ok text → ∀ name ∈ value.uses cx.model, Resolves cx locals name

/-- The object of a member: if it has its type from the name of a module, that name is global. -/
theorem property_resolves [cx.model.Typed] (hlocals : locals.Moduleless) {object : Expr}
    (hobject : Resolved cx locals object) (span : Span) (member : String)
    (h : Reached cx locals object (exprText cx locals object)) :
    ∀ name ∈ (Expr.property span object member).uses cx.model, Resolves cx locals name := by
  intro name hname
  by_cases hmodule : cx.model.namesModule object = true
  · -- The object is not written, so the name is not resolved as an expression but as a module.
    rw [Expr.uses, if_pos hmodule, Option.mem_toList] at hname
    unfold Names.namesModule at hmodule
    rw [hname, Option.bind_some] at hmodule
    cases hsymbol : cx.model.resolve? name with
    | none =>
      rw [hsymbol] at hmodule
      cases hmodule
    | some symbol => exact .inr ⟨symbol, hsymbol⟩
  · rw [Expr.uses, if_neg hmodule] at hname
    rcases h with hthis | ⟨specifier, htype⟩ | ⟨text, htext⟩
    · obtain ⟨place, rfl⟩ := Expr.eq_this hthis
      cases hname
    · have htyped : Names.typeOf cx.model locals object = _ :=
        (cx.model.typeOf_eq locals object).symm.trans htype
      exact absurd (Names.namesModule_of_typeOf hlocals object htyped) hmodule
    · exact hobject text htext name hname

theorem identCall_resolves {name text : String} {span place : Span}
    {typeArgs : Option (List TypeNode)} {args : List Expr}
    (h : exprText cx locals (.call span (.ident place name) typeArgs args) = .ok text) :
    Resolves cx locals name ∧ ∃ texts, exprTexts cx locals args = .ok texts := by
  rw [exprText] at h
  split at h
  · rename_i hbound
    obtain ⟨texts, htexts, -⟩ := Lowered.bind_eq_ok.mp h
    exact ⟨.inl hbound, texts, htexts⟩
  · obtain ⟨hsymbol, hargs⟩ := functionCallText_reached h
    refine ⟨.inr hsymbol, ?_⟩
    rcases hargs with rfl | hargs
    · exact ⟨[], rfl⟩
    · exact hargs

/-- The arguments of a call are written, but for those of a destructor. -/
theorem callText_reached {text : String} {span : Span} {callee : Expr}
    {typeArgs : Option (List TypeNode)} {args : List Expr}
    (h : exprText cx locals (.call span callee typeArgs args) = .ok text) :
    callee.memberName? = some Spelling.destructor ∨
      ∃ texts, exprTexts cx locals args = .ok texts := by
  cases callee with
  | ident place other => exact .inr (identCall_resolves h).2
  | property place object member =>
    rw [exprText] at h
    rcases (methodCallText_reached h).2 with rfl | hargs
    · exact .inl rfl
    · exact .inr hargs
  | _ =>
    simp only [exprText] at h
    obtain ⟨inner, -, h⟩ := Lowered.bind_eq_ok.mp h
    obtain ⟨texts, htexts, -⟩ := Lowered.bind_eq_ok.mp h
    exact .inr ⟨texts, htexts⟩

mutual

/-- **An expression is written only if its names stand for something.** -/
theorem exprText_resolves [cx.model.Typed] (hlocals : locals.Moduleless) :
    ∀ value : Expr, Resolved cx locals value
  | .ident span other, text, h, name, hname => by
    rw [Expr.uses, List.mem_singleton] at hname
    rw [exprText] at h
    exact hname ▸ identText_resolves h
  | .thisRef _, _, _, _, hname => nomatch hname
  | .literal _ _, _, _, _, hname => nomatch hname
  | .property span object member, text, h, name, hname => by
    rw [exprText] at h
    exact property_resolves hlocals (exprText_resolves hlocals object) span member
      (propertyText_reached h) name hname
  | .call span callee typeArgs args, text, h, name, hname => by
    -- A destructor call is written without its arguments, and these do not count.
    rcases List.mem_append.mp hname with hname | hname
    · cases callee with
      | ident place other =>
        obtain rfl := List.mem_singleton.mp hname
        exact (identCall_resolves h).1
      | property place object member =>
        rw [exprText] at h
        exact property_resolves hlocals (exprText_resolves hlocals object) place member
          (methodCallText_reached h).1 name hname
      | _ =>
        rw [exprText.eq_def] at h
        obtain ⟨inner, hinner, -⟩ := Lowered.bind_eq_ok.mp h
        exact exprText_resolves hlocals _ inner hinner name hname
    · split at hname
      · cases hname
      · rename_i hmember
        obtain ⟨texts, htexts⟩ := (callText_reached h).resolve_left hmember
        exact exprTexts_resolves hlocals args texts htexts name hname
  | .new span target args, text, h, name, hname => by
    rw [exprText] at h
    obtain ⟨texts, htexts⟩ := newText_reached h
    exact exprTexts_resolves hlocals args texts htexts name hname
  | .binary span op left right, text, h, name, hname => by
    rw [exprText] at h
    obtain ⟨first, hfirst, h⟩ := Lowered.bind_eq_ok.mp h
    obtain ⟨second, hsecond, -⟩ := Lowered.bind_eq_ok.mp h
    rcases List.mem_append.mp hname with hname | hname
    · exact exprText_resolves hlocals left first hfirst name hname
    · exact exprText_resolves hlocals right second hsecond name hname
  | .unary span op operand, text, h, name, hname => by
    rw [exprText] at h
    obtain ⟨inner, hinner, -⟩ := Lowered.bind_eq_ok.mp h
    exact exprText_resolves hlocals operand inner hinner name hname
  | .paren span operand, text, h, name, hname => by
    rw [exprText] at h
    obtain ⟨inner, hinner, -⟩ := Lowered.bind_eq_ok.mp h
    exact exprText_resolves hlocals operand inner hinner name hname
  | .comma span items, text, h, name, hname => by
    rw [exprText] at h
    obtain ⟨texts, htexts, -⟩ := Lowered.bind_eq_ok.mp h
    exact exprTexts_resolves hlocals items texts htexts name hname
  | .receiverCall span owner method args, text, h, name, hname => by
    rw [exprText] at h
    obtain ⟨texts, htexts⟩ := receiverCallText_reached h
    exact exprTexts_resolves hlocals args texts htexts name hname

theorem exprTexts_resolves [cx.model.Typed] (hlocals : locals.Moduleless) :
    ∀ (items : List Expr) (texts : List String),
    exprTexts cx locals items = .ok texts →
    ∀ name ∈ Expr.usesAll cx.model items, Resolves cx locals name
  | [], _, _, _, hname => nomatch hname
  | item :: rest, texts, h, name, hname => by
    obtain ⟨text, htext, h⟩ := Lowered.bind_eq_ok.mp h
    obtain ⟨others, hothers, -⟩ := Lowered.bind_eq_ok.mp h
    rcases List.mem_append.mp hname with hname | hname
    · exact exprText_resolves hlocals item text htext name hname
    · exact exprTexts_resolves hlocals rest others hothers name hname

end

end Emit

/-! ## Passes -/

/-- The expression has the uses of another and more. What is read off its outermost node stays. -/
structure Expr.Enriches (model : Model) (value result : Expr) : Prop where
  uses : ∀ name ∈ value.uses model, name ∈ result.uses model
  member : result.memberName? = value.memberName?
  root : result.rootName? = value.rootName?

namespace Expr

section Enriching

variable {model : Model}

theorem Enriches.refl (value : Expr) : value.Enriches model value := ⟨fun _ => id, rfl, rfl⟩

theorem Enriches.trans {first second third : Expr} (h : first.Enriches model second)
    (h' : second.Enriches model third) : first.Enriches model third where
  uses name hname := h'.uses name (h.uses name hname)
  member := h'.member.trans h.member
  root := h'.root.trans h.root

variable {items results : List Expr}

theorem usesAll_enriches (h : List.Forall₂ (Enriches model) items results) :
    ∀ name ∈ usesAll model items, name ∈ usesAll model results := by
  induction h with
  | nil => exact fun _ => id
  | cons hitem _ ih =>
    intro name hname
    rcases List.mem_append.mp hname with hname | hname
    · exact List.mem_append_left _ (hitem.uses name hname)
    · exact List.mem_append_right _ (ih name hname)

theorem lastRootName?_enriches (h : List.Forall₂ (Enriches model) items results) :
    lastRootName? results = lastRootName? items := by
  induction h with
  | nil => rfl
  | cons hitem hrest ih =>
    cases hrest with
    | nil => exact hitem.root
    | cons => exact ih

/-- Parts with more uses make an expression with more uses. -/
theorem Enriches.property {object object' : Expr} (h : object.Enriches model object') (span : Span)
    (name : String) :
    (Expr.property span object name).Enriches model (.property span object' name) := by
  refine ⟨fun other hother => ?_, rfl, rfl⟩
  have hmodule : model.namesModule object' = model.namesModule object := by
    unfold Names.namesModule
    rw [h.root]
  rw [Expr.uses] at hother ⊢
  rw [hmodule, h.root]
  split at hother
  · rename_i hnames
    rwa [if_pos hnames]
  · rename_i hnames
    rw [if_neg hnames]
    exact h.uses other hother

theorem Enriches.call {callee callee' : Expr} (h : callee.Enriches model callee')
    (hargs : List.Forall₂ (Enriches model) items results) (span : Span)
    (typeArgs : Option (List TypeNode)) :
    (Expr.call span callee typeArgs items).Enriches model (.call span callee' typeArgs results) := by
  refine ⟨fun name hname => ?_, rfl, rfl⟩
  rw [Expr.uses] at hname ⊢
  rw [h.member]
  rcases List.mem_append.mp hname with hname | hname
  · exact List.mem_append_left _ (h.uses name hname)
  · refine List.mem_append_right _ ?_
    split at hname
    · cases hname
    · rename_i hmember
      rw [if_neg hmember]
      exact usesAll_enriches hargs name hname

end Enriching

end Expr

namespace Walk

section Enriching

variable {model : Model} {visit : Expr → ExprM Expr}

/-- The visit loses no use of a name. -/
def Enriching (model : Model) (visit : Expr → ExprM Expr) : Prop :=
  ∀ (value result : Expr) (pending after : Pending),
    (visit value).run pending = .ok (result, after) → value.Enriches model result

/-- Nor does a walk through the expression. -/
def Enriched (model : Model) (visit : Expr → ExprM Expr) (value : Expr) : Prop :=
  ∀ (result : Expr) (pending after : Pending),
    (expr visit value).run pending = .ok (result, after) → value.Enriches model result

theorem exprs_enriched {items results : List Expr}
    (h : ∀ item ∈ items, Enriched model visit item) {pending after : Pending}
    (hrun : (exprs visit items).run pending = .ok (results, after)) :
    List.Forall₂ (Expr.Enriches model) items results := by
  induction items generalizing results pending with
  | nil =>
    cases hrun
    exact .nil
  | cons item rest ih =>
    obtain ⟨first, between, hfirst, hrun⟩ := Lowered.run_bind.mp hrun
    obtain ⟨others, last, hothers, hrun⟩ := Lowered.run_bind.mp hrun
    obtain ⟨rfl, rfl⟩ := Lowered.run_pure.mp hrun
    exact .cons (h item (by simp) _ _ _ hfirst) (ih (fun other hm => h other (by simp [hm])) hothers)

/-- A walk loses no use that its visit does not lose. -/
theorem Enriching.expr (h : Enriching model visit) (value : Expr) : Enriched model visit value := by
  induction value using Expr.ind with
  | ident | thisRef | literal => exact fun result pending after hrun => h _ _ _ _ hrun
  | property span object name hobject =>
    intro result pending after hrun
    obtain ⟨object', between, hfirst, hrun⟩ := Lowered.run_bind.mp hrun
    exact ((hobject _ _ _ hfirst).property span name).trans (h _ _ _ _ hrun)
  | call span callee typeArgs args hcallee hargs =>
    intro result pending after hrun
    obtain ⟨callee', between, hfirst, hrun⟩ := Lowered.run_bind.mp hrun
    obtain ⟨args', last, hsecond, hrun⟩ := Lowered.run_bind.mp hrun
    have hparts := exprs_enriched hargs hsecond
    exact ((hcallee _ _ _ hfirst).call hparts span typeArgs).trans (h _ _ _ _ hrun)
  | binary span op left right hleft hright =>
    intro result pending after hrun
    obtain ⟨left', between, hfirst, hrun⟩ := Lowered.run_bind.mp hrun
    obtain ⟨right', last, hsecond, hrun⟩ := Lowered.run_bind.mp hrun
    have hpart := hleft _ _ _ hfirst
    have hpart' := hright _ _ _ hsecond
    have hnode : (Expr.binary span op left right).Enriches model (.binary span op left' right') := by
      refine ⟨fun name hname => ?_, rfl, by simp [Expr.rootName?, hpart.root]⟩
      rcases List.mem_append.mp hname with hname | hname
      · exact List.mem_append_left _ (hpart.uses name hname)
      · exact List.mem_append_right _ (hpart'.uses name hname)
    exact hnode.trans (h _ _ _ _ hrun)
  | unary span op operand hoperand =>
    intro result pending after hrun
    obtain ⟨operand', between, hfirst, hrun⟩ := Lowered.run_bind.mp hrun
    have hpart := hoperand _ _ _ hfirst
    have hnode : (Expr.unary span op operand).Enriches model (.unary span op operand') :=
      ⟨hpart.uses, rfl, by simp [Expr.rootName?, hpart.root]⟩
    exact hnode.trans (h _ _ _ _ hrun)
  | paren span inner hinner =>
    intro result pending after hrun
    obtain ⟨inner', between, hfirst, hrun⟩ := Lowered.run_bind.mp hrun
    have hpart := hinner _ _ _ hfirst
    have hnode : (Expr.paren span inner).Enriches model (.paren span inner') :=
      ⟨hpart.uses, rfl, hpart.root⟩
    exact hnode.trans (h _ _ _ _ hrun)
  | comma span items hitems =>
    intro result pending after hrun
    obtain ⟨items', between, hfirst, hrun⟩ := Lowered.run_bind.mp hrun
    have hparts := exprs_enriched hitems hfirst
    have hnode : (Expr.comma span items).Enriches model (.comma span items') :=
      ⟨Expr.usesAll_enriches hparts, rfl, Expr.lastRootName?_enriches hparts⟩
    exact hnode.trans (h _ _ _ _ hrun)
  | new span target args hargs =>
    intro result pending after hrun
    obtain ⟨args', between, hfirst, hrun⟩ := Lowered.run_bind.mp hrun
    have hnode : (Expr.new span target args).Enriches model (.new span target args') :=
      ⟨Expr.usesAll_enriches (exprs_enriched hargs hfirst), rfl, rfl⟩
    exact hnode.trans (h _ _ _ _ hrun)
  | receiverCall span owner method args hargs =>
    intro result pending after hrun
    obtain ⟨args', between, hfirst, hrun⟩ := Lowered.run_bind.mp hrun
    have hnode : (Expr.receiverCall span owner method args).Enriches model
        (.receiverCall span owner method args') :=
      ⟨Expr.usesAll_enriches (exprs_enriched hargs hfirst), rfl, rfl⟩
    exact hnode.trans (h _ _ _ _ hrun)

theorem Becomes.uses {selected : Bool} {visit : Visit} (h : ∀ locals, Enriching model (visit locals))
    {there : Occurrence Expr} {result : Expr} (hbecomes : Becomes selected visit there result) :
    ∀ name ∈ there.node.uses model, name ∈ result.uses model := by
  unfold Becomes at hbecomes
  split at hbecomes
  · obtain ⟨locals, next, pending, -, hrun⟩ := hbecomes
    exact ((h locals).expr there.node _ _ _ hrun).uses
  · subst hbecomes
    exact fun _ => id

end Enriching

end Walk

section Passes

variable {model : Model}

/-- The receiver is an argument of the new call. -/
theorem Receiver.injecting_enriching (locals : Locals) :
    Walk.Enriching model (injecting model locals) := by
  intro value result pending after hrun
  obtain ⟨hresult, rfl⟩ := Lowered.run_lift.mp hrun
  rcases injectCall_receives hresult with rfl | ⟨span, place, object, name, typeArgs, args, owner,
    type, receiver, rfl, hreceiver, rfl⟩
  · exact .refl _
  · -- The object leaves the callee and comes back in the first argument.
    refine ⟨fun other hother => ?_, rfl, rfl⟩
    have hpassed : ∀ other ∈ object.uses model, other ∈ receiver.uses model := by
      rcases argument_result hreceiver with rfl | ⟨callee, rfl⟩
      · exact fun _ => id
      · intro other hother
        simp [Expr.uses, Expr.usesAll, Expr.memberName?, hother]
    rcases List.mem_append.mp hother with hother | hother
    · exact List.mem_append_left _ (hpassed other (Expr.mem_uses_property hother))
    · split at hother
      · cases hother
      · exact List.mem_append_right _ hother

/-- The operand is assigned to its variable. -/
theorem Address.materializeCall_enriching (locals : Locals) :
    Walk.Enriching model (materializeCall model locals) := by
  intro value result pending after hrun
  unfold materializeCall at hrun
  split at hrun
  · rename_i span callee typeArgs operand
    split at hrun
    · split at hrun
      · cases hrun
      · cases hrun
        refine ⟨fun name hname => ?_, rfl, rfl⟩
        have hparts : name ∈ callee.uses model ∨ name ∈ operand.uses model := by
          rcases List.mem_append.mp hname with hname | hname
          · exact .inl hname
          · split at hname
            · cases hname
            · simpa [Expr.usesAll] using Or.inr hname
        rcases hparts with hcallee | hoperand
        · simp [throughTemporary, Expr.uses, Expr.usesAll, hcallee]
        · simp [throughTemporary, Expr.uses, Expr.usesAll, hoperand]
    · cases hrun
      exact .refl _
  · cases hrun
    exact .refl _

theorem PassSet.Becomes.uses {passes : PassSet} {there : Occurrence Expr} {result : Expr}
    (h : passes.Becomes model there result) :
    ∀ name ∈ there.node.uses model, name ∈ result.uses model := by
  obtain ⟨injected, hinjected, hresult⟩ := h
  intro name hname
  exact hresult.uses Address.materializeCall_enriching name
    (hinjected.uses Receiver.injecting_enriching name hname)

end Passes

end NativeLowering
