import NativeLowering.Proofs.Layout.Format
import NativeLowering.Proofs.Receiver.Passes
import NativeLowering.Proofs.Receiver.Word

/-!
# A method's body and its receiver function's, as they are written

A body with the receiver parameter in place is written almost like the body it comes from with the
parameter's name for the current instance (`exprText_bound`, `stmts_bound`). Where the current
instance is passed on as a handle, or its destructor called, the method's text says more.

What it says more shows in two characters: the raw pointer of a handle is taken with a dot, and a
destructor is called with a tilde. They are the weight of a text. The method's text is never lighter
than the function's, the two are the same if the body is carried over, and they have the same weight
only if it is, in the parts that are certain to be written (`Outweighs`).

Three texts are compared at once: the member's, the member's with the other word, and the receiver
function's. Only the first is known to be written at all, and `Agree` says that the other two then
are, and are related.
-/

set_option autoImplicit false

namespace NativeLowering

/-! ## Three texts at once -/

/-- Whenever the first is computed so are the others, and the three are related. -/
def Agree {α : Type} (R : α → α → α → Prop) (first second third : Lowered α) : Prop :=
  ∀ value, first = .ok value →
    ∃ value' value'', second = .ok value' ∧ third = .ok value'' ∧ R value value' value''

namespace Agree

variable {α β : Type} {R : α → α → α → Prop} {S : β → β → β → Prop}
  {first second third : Lowered α}

theorem ok {value value' value'' : α} (h : R value value' value'') :
    Agree R (.ok value) (.ok value') (.ok value'') := by
  intro _ hok
  cases hok
  exact ⟨value', value'', rfl, rfl, h⟩

theorem fail (span : Span) (cause : Fault) : Agree R (failAt span cause) second third := nofun

theorem bind {next next' next'' : α → Lowered β} (h : Agree R first second third)
    (hnext : ∀ value value' value'', R value value' value'' →
      Agree S (next value) (next' value') (next'' value'')) :
    Agree S (first >>= next) (second >>= next') (third >>= next'') := by
  intro result hresult
  obtain ⟨value, hfirst, hrest⟩ := Lowered.bind_eq_ok.mp hresult
  obtain ⟨value', value'', hsecond, hthird, hR⟩ := h value hfirst
  obtain ⟨result', result'', hrest', hrest'', hS⟩ := hnext _ _ _ hR result hrest
  exact ⟨result', result'', Lowered.bind_eq_ok.mpr ⟨value', hsecond, hrest'⟩,
    Lowered.bind_eq_ok.mpr ⟨value'', hthird, hrest''⟩, hS⟩

theorem imp {R' : α → α → α → Prop} (h : Agree R first second third)
    (hR : ∀ value value' value'', R value value' value'' → R' value value' value'') :
    Agree R' first second third := by
  intro value hvalue
  obtain ⟨value', value'', hsecond, hthird, hrelated⟩ := h value hvalue
  exact ⟨value', value'', hsecond, hthird, hR _ _ _ hrelated⟩

/-- The related values are the results. -/
theorem results (h : Agree R first second third) :
    Agree (fun value value' value'' => R value value' value'' ∧ second = .ok value' ∧
      third = .ok value'') first second third := by
  intro value hvalue
  obtain ⟨value', value'', hsecond, hthird, hrelated⟩ := h value hvalue
  exact ⟨value', value'', hsecond, hthird, hrelated, hsecond, hthird⟩

/-- What the three have in common is computed first. -/
theorem bindSelf {next next' next'' : α → Lowered β}
    (h : ∀ value, first = .ok value → Agree S (next value) (next' value) (next'' value)) :
    Agree S (first >>= next) (first >>= next') (first >>= next'') := by
  cases first with
  | error e => nofun
  | ok value => exact h value rfl

theorem map {change change' change'' : α → β} (h : Agree R first second third)
    (hchange : ∀ value value' value'', R value value' value'' →
      S (change value) (change' value') (change'' value'')) :
    Agree S (first.map change) (second.map change') (third.map change'') := by
  intro result hresult
  obtain ⟨value, hfirst, rfl⟩ := Lowered.map_eq_ok.mp hresult
  obtain ⟨value', value'', hsecond, hthird, hR⟩ := h value hfirst
  exact ⟨_, _, Lowered.map_eq_ok.mpr ⟨value', hsecond, rfl⟩,
    Lowered.map_eq_ok.mpr ⟨value'', hthird, rfl⟩, hchange _ _ _ hR⟩

end Agree

namespace Receiver

/-! ## Weights -/

/-- The characters that tell the two bodies apart. -/
def telling (c : Char) : Bool := c == '.' || c == '~'

theorem telling_solid : Text.Solid telling := by
  intro c h
  have hc : c = '.' ∨ c = '~' := by simpa [telling] using h
  rcases hc with rfl | rfl <;> decide

def weight (text : String) : Nat := Text.count telling text

def weightAll (texts : List String) : Nat := (texts.map weight).sum

@[simp] theorem weight_append (first second : String) :
    weight (first ++ second) = weight first + weight second := Text.count_append first second

@[simp] theorem weight_format (layout : Layout) (depth : Nat) (mode : AppendMode) (text : String) :
    weight (layout.format depth mode text) = weight text :=
  layout.count_format telling_solid depth mode text

theorem weight_piece (cx : Context) (text : String) : weight (cx.piece text) = weight text :=
  weight_format cx.layout 0 .inline text

theorem weight_commaList (texts : List String) : weight (commaList texts) = weightAll texts :=
  Text.count_intercalate (by decide) texts

@[simp] theorem weight_argList (texts : List String) : weight (argList texts) = weightAll texts := by
  have hopen : weight "(" = 0 := by decide
  have hclose : weight ")" = 0 := by decide
  simp only [argList, weight_append, weight_commaList, hopen, hclose]
  omega

section Weights

variable {α β γ : Type} {w : α → Nat} {v : β → Nat} {u : γ → Nat} {good fine good' fine' : Prop}

/-- The first is at least as heavy as the second. They are the same in the one case, and of the same
weight only in the other. -/
structure Outweighs (w : α → Nat) (good fine : Prop) (first second : α) : Prop where
  same : good → second = first
  le : w second ≤ w first
  fine : w first ≤ w second → fine

/-- The relation between the second and the third of three texts. -/
def Lighter (w : α → Nat) (good fine : Prop) (_ second third : α) : Prop :=
  Outweighs w good fine second third

theorem Outweighs.refl (value : α) (h : fine) : Outweighs w good fine value value :=
  ⟨fun _ => rfl, le_rfl, fun _ => h⟩

theorem Outweighs.mono {first second : α} (h : Outweighs w good fine first second)
    (hgood : good' → good) (hfine : fine → fine') : Outweighs w good' fine' first second :=
  ⟨fun hg => h.same (hgood hg), h.le, fun hle => hfine (h.fine hle)⟩

/-- What is written around a text makes no difference. -/
theorem Outweighs.map {first second : α} (h : Outweighs w good fine first second) (f : α → β)
    (c : Nat) (hf : ∀ value, v (f value) = w value + c) :
    Outweighs v good fine (f first) (f second) where
  same := fun hg => congrArg f (h.same hg)
  le := by
    have hle := h.le
    rw [hf, hf]
    omega
  fine := by
    intro hle
    rw [hf, hf] at hle
    exact h.fine (by omega)

theorem Outweighs.within {first second : String} (h : Outweighs weight good fine first second)
    (before after : String) :
    Outweighs weight good fine (before ++ first ++ after) (before ++ second ++ after) := by
  refine h.map (before ++ · ++ after) (weight before + weight after) fun text => ?_
  rw [weight_append, weight_append]
  omega

/-- Two differences do not make up for each other. -/
theorem Outweighs.both {first second : α} {other other' : β} (h : Outweighs w good fine first second)
    (h' : Outweighs v good' fine' other other') (f : α → β → γ)
    (hf : ∀ value more, u (f value more) = w value + v more) :
    Outweighs u (good ∧ good') (fine ∧ fine') (f first other) (f second other') where
  same := by
    intro hg
    rw [h.same hg.1, h'.same hg.2]
  le := by
    have hle := h.le
    have hle' := h'.le
    rw [hf, hf]
    omega
  fine := by
    intro hsum
    have hle := h.le
    have hle' := h'.le
    rw [hf, hf] at hsum
    exact ⟨h.fine (by omega), h'.fine (by omega)⟩

theorem Outweighs.append {first second other other' : String}
    (h : Outweighs weight good fine first second) (h' : Outweighs weight good' fine' other other') :
    Outweighs weight (good ∧ good') (fine ∧ fine') (first ++ other) (second ++ other') :=
  h.both h' (· ++ ·) weight_append

theorem Outweighs.cons {first second : String} {rest rest' : List String}
    (h : Outweighs weight good fine first second) (h' : Outweighs weightAll good' fine' rest rest') :
    Outweighs weightAll (good ∧ good') (fine ∧ fine') (first :: rest) (second :: rest') := by
  refine h.both h' List.cons fun text texts => ?_
  rw [weightAll, List.map_cons, List.sum_cons, weightAll]

theorem lighter_refl (computed : Lowered α) (h : fine) :
    Agree (Lighter w good fine) computed computed computed :=
  fun value hvalue => ⟨value, value, hvalue, hvalue, .refl value h⟩

theorem lighter_mono {first second third : Lowered α}
    (h : Agree (Lighter w good fine) first second third) (hgood : good' → good)
    (hfine : fine → fine') : Agree (Lighter w good' fine') first second third :=
  h.imp fun _ _ _ hw => Outweighs.mono hw hgood hfine

end Weights

/-! ## Expressions -/

section Texts

variable {cx : Context} {owner word : String} {locals locals' : Locals} {good fine : Prop}

theorem Rebinding.binds (h : Rebinding owner locals locals') {name : String}
    (hname : name ≠ Spelling.receiver) : locals'.binds name = locals.binds name := by
  rw [Locals.binds, h.others name hname, Locals.binds]

theorem Rebinding.requireThis (h : Rebinding owner locals locals') (span : Span) :
    requireThis locals span = .ok () := by
  simp only [NativeLowering.requireThis, h.this]

theorem Rebinding.receiverText (h : Rebinding owner locals locals') (span : Span) :
    exprText cx locals' (.ident span Spelling.receiver) = .ok Spelling.receiver := by
  have hpiece : cx.piece Spelling.receiver = Spelling.receiver := by
    have happend := cx.piece_receiver ""
    have hempty : cx.piece "" = "" := rfl
    rw [hempty] at happend
    exact happend
  have hbinds : locals'.binds Spelling.receiver = true := by simp [Locals.binds, h.receiver]
  rw [exprText, identText_eq, if_pos hbinds, hpiece]

theorem memberText_bound {object : Expr} {own : String → Prop} (hobject : Placed own object)
    (type : Ty) (member : String) (span : Span) {first second third : Lowered String}
    (htext : Agree (Lighter weight good fine) first second third) :
    Agree (Lighter weight good fine)
      (memberTextAs cx word locals object type member span first)
      (memberTextAs cx Spelling.receiver locals object type member span second)
      (memberText cx locals' (bound object) type member span third) := by
  simp only [memberTextAs, memberText, hobject.not_this, hobject.bound_not_this]
  refine Agree.bindSelf fun between _ => ?_
  refine htext.bind fun _ _ _ hw => .ok ?_
  exact Outweighs.map hw (· ++ cx.piece (between ++ member)) _ fun _ => weight_append _ _

/-- What is written of a member when its object is written as the two bodies do. -/
theorem propertyText_bound [cx.model.Typed] (h : Rebinding owner locals locals') {object : Expr}
    (hobject : object.isThis = true ∨ Placed (NotOwn cx.model owner) object)
    (htext : Agree (Lighter weight (Carried True cx.model owner object)
      (Carried False cx.model owner object)) (exprTextAs cx word locals object)
      (exprTextAs cx Spelling.receiver locals object) (exprText cx locals' (bound object)))
    (name : String) (span : Span) :
    Agree (Lighter weight (Carried True cx.model owner (.property span object name))
        (Carried False cx.model owner (.property span object name)))
      (propertyTextAs cx word locals object name span (exprTextAs cx word locals object))
      (propertyTextAs cx Spelling.receiver locals object name span
        (exprTextAs cx Spelling.receiver locals object))
      (propertyText cx locals' (bound object) name span (exprText cx locals' (bound object))) := by
  rcases hobject with hthis | hobject
  · -- The arrow behind the current instance is the one behind a pointer.
    obtain ⟨place, rfl⟩ := Expr.eq_this hthis
    have harrow : cx.piece (Spelling.receiver ++ "->" ++ name)
        = Spelling.receiver ++ cx.piece ("->" ++ name) := by
      rw [String.append_assoc, cx.piece_receiver]
    simp only [propertyTextAs, instanceMemberTextAs, propertyText, bound, h.typeOf_receiver,
      memberText, Expr.isThis, if_true, h.requireThis, h.receiverText, separator, harrow]
    exact .ok (.refl _ fun _ => trivial)
  · simp only [propertyTextAs, propertyText, hobject.not_this, hobject.bound_not_this,
      typeOf_bound h object hobject]
    cases htype : cx.model.typeOf locals object with
    | moduleTy specifier =>
      -- The object is not written, and not asked about.
      refine lighter_refl _ fun hnames => ?_
      rw [h.namesModule_of_typeOf htype] at hnames
      rcases hnames with hfalse | hnames
      · exact hfalse.elim
      · cases hnames
    | _ =>
      exact lighter_mono (memberText_bound hobject _ name span htext)
        (fun hobject => hobject (.inl trivial)) fun hobject _ => hobject

/-! ### Calls -/

theorem addressText_bound (span : Span) {args : List Expr} {own : String → Prop}
    (hargs : PlacedAll own args) {first second third : Lowered (List String)}
    (htexts : Agree (Lighter weightAll good fine) first second third) :
    Agree (Lighter weight good fine) (addressText span args first) (addressText span args second)
      (addressText span (boundAll args) third) := by
  match args with
  | [] | _ :: _ :: _ => exact .fail _ _
  | [operand] =>
    simp only [addressText, boundAll, isAddressable_bound operand hargs.1]
    split
    · refine htexts.map fun _ _ _ hw => ?_
      refine Outweighs.map hw ("&" ++ commaList ·) (weight "&") fun texts => ?_
      rw [weight_append, weight_commaList, Nat.add_comm]
    · exact .fail _ _

theorem sizeText_bound (span : Span) (typeArgs : List TypeNode) {args : List Expr}
    {own : String → Prop} (hargs : PlacedAll own args) {first second third : Lowered (List String)}
    (htexts : Agree (Lighter weightAll good fine) first second third) (hfine : args = [] → fine) :
    Agree (Lighter weight good fine) (sizeText cx span typeArgs args first)
      (sizeText cx span typeArgs args second) (sizeText cx span typeArgs (boundAll args) third) := by
  match typeArgs, args with
  | [_], [] => exact lighter_refl _ (hfine rfl)
  | [], [value] =>
    simp only [sizeText, boundAll, isAddressable_bound value hargs.1]
    refine htexts.map fun _ _ _ hw => ?_
    split
    · refine Outweighs.map hw ("sizeof " ++ commaList ·) (weight "sizeof ") fun texts => ?_
      rw [weight_append, weight_commaList, Nat.add_comm]
    · refine Outweighs.map hw ("sizeof" ++ argList ·) (weight "sizeof") fun texts => ?_
      rw [weight_append, weight_argList, Nat.add_comm]
  | [], [] | [], _ :: _ :: _ | [_], _ :: _ | _ :: _ :: _, [] | _ :: _ :: _, _ :: _ =>
    exact .fail _ _

/-- A name in front of arguments. -/
theorem lighter_argList {texts texts' : List String}
    (h : Outweighs weightAll good fine texts texts') (callee : String) :
    Outweighs weight good fine (callee ++ argList texts) (callee ++ argList texts') := by
  refine h.map (callee ++ argList ·) (weight callee) fun texts => ?_
  rw [weight_append, weight_argList, Nat.add_comm]

theorem functionCallText_bound (name : String) (span : Span) (typeArgs : Option (List TypeNode))
    {args : List Expr} {own : String → Prop} (hargs : PlacedAll own args)
    {first second third : Lowered (List String)}
    (htexts : Agree (Lighter weightAll good fine) first second third) (hfine : args = [] → fine) :
    Agree (Lighter weight good fine) (functionCallText cx name span typeArgs args first)
      (functionCallText cx name span typeArgs args second)
      (functionCallText cx name span typeArgs (boundAll args) third) := by
  have hplain (symbol : Symbol) : Agree (Lighter weight good fine)
      (plainCallText cx name symbol span (typeArgs.getD []) first)
      (plainCallText cx name symbol span (typeArgs.getD []) second)
      (plainCallText cx name symbol span (typeArgs.getD []) third) := by
    unfold plainCallText
    cases typeArgs.getD [] with
    | nil => exact htexts.map fun _ _ _ hw => lighter_argList hw _
    | cons node rest => exact .fail _ _
  have hconversion (builtin : Vocabulary.Builtin) : Agree (Lighter weight good fine)
      (conversionText span builtin args first) (conversionText span builtin args second)
      (conversionText span builtin (boundAll args) third) := by
    match args with
    | [] | _ :: _ :: _ => exact .fail _ _
    | [_] => exact htexts.map fun _ _ _ hw => lighter_argList hw _
  unfold functionCallText
  cases cx.model.resolve? name with
  | none => exact .fail _ _
  | some symbol =>
    dsimp only
    cases symbol.function? with
    | none => exact .fail _ _
    | some info =>
      dsimp only
      cases info.builtin with
      | none => exact hplain symbol
      | some builtin =>
        cases builtin with
        | addressOf => exact addressText_bound span hargs htexts
        | sizeOf => exact sizeText_bound span _ hargs htexts hfine
        | allocate => exact hplain symbol
        | _ => exact hconversion _

theorem newText_bound (target : Expr) (span : Span) {first second third : Lowered (List String)}
    (htexts : Agree (Lighter weightAll good fine) first second third) :
    Agree (Lighter weight good fine) (newText cx target span first) (newText cx target span second)
      (newText cx target span third) := by
  unfold newText
  cases target with
  | ident place name =>
    dsimp only
    cases cx.model.class? name with
    | none => exact .fail _ _
    | some found => exact htexts.bind fun _ _ _ hw => .ok (lighter_argList hw _)
  | _ => exact .fail _ _

/-- A callee applied to its arguments, of which nothing is asked as the callee of a call. -/
theorem applied_bound {callee : Expr} {span : Span} {typeArgs : Option (List TypeNode)}
    {args : List Expr} {texts texts' texts'' : Lowered String}
    {first second third : Lowered (List String)}
    (hcall : ∀ name, callee.ownMember? = some name → cx.model.declaresMethod owner name = true →
      name ≠ Spelling.destructor ∧ cx.model.isSharedClass owner = false)
    (hcallee : Agree (Lighter weight (Carried True cx.model owner callee)
      (Carried False cx.model owner callee)) texts texts' texts'')
    (hargs : Agree (Lighter weightAll (CarriedAll True cx.model owner args)
      (CarriedAll False cx.model owner args)) first second third) :
    Agree (Lighter weight (Carried True cx.model owner (.call span callee typeArgs args))
        (Carried False cx.model owner (.call span callee typeArgs args)))
      (do
        let head ← texts
        let items ← first
        return head ++ argList items)
      (do
        let head ← texts'
        let items ← second
        return head ++ argList items)
      (do
        let head ← texts''
        let items ← third
        return head ++ argList items) := by
  refine hcallee.bind fun _ _ _ hw => ?_
  refine hargs.bind fun _ _ _ hws => .ok ?_
  exact (hw.append (hws.map argList 0 weight_argList)).mono
    (fun hc => ⟨hc.2.1, hc.2.2 (.inl trivial)⟩) fun hparts => ⟨hcall, hparts.1, fun _ => hparts.2⟩

section Owners

variable [cx.model.Typed]

theorem isSharedHandle_bound (h : Rebinding owner locals locals') {receiver : Expr}
    (hreceiver : Placed (NotOwn cx.model owner) receiver) :
    isSharedHandle cx locals' (bound receiver) = isSharedHandle cx locals receiver := by
  simp only [isSharedHandle, typeOf_bound h receiver hreceiver]

/-- The current instance is written as a handle where instances are shared, which it is not. -/
theorem receiverCallText_bound (h : Rebinding owner locals locals') (target method : String)
    {receiver : Expr} {rest : List Expr}
    (hreceiver : receiver.isThis = true ∨ Placed (NotOwn cx.model owner) receiver) (span : Span)
    (htext : Agree (Lighter weight (Carried True cx.model owner receiver)
      (Carried False cx.model owner receiver)) (exprTextAs cx word locals receiver)
      (exprTextAs cx Spelling.receiver locals receiver) (exprText cx locals' (bound receiver)))
    {first second third : Lowered (List String)}
    (htexts : Agree (Lighter weightAll (CarriedAll True cx.model owner rest)
      (CarriedAll False cx.model owner rest)) first second third) :
    Agree (Lighter weight
        (Carried True cx.model owner (.receiverCall span target method (receiver :: rest)))
        (Carried False cx.model owner (.receiverCall span target method (receiver :: rest))))
      (receiverCallText cx locals target method (receiver :: rest) span (do
        let text ← exprTextAs cx word locals receiver
        let texts ← first
        return text :: texts))
      (receiverCallText cx locals target method (receiver :: rest) span (do
        let text ← exprTextAs cx Spelling.receiver locals receiver
        let texts ← second
        return text :: texts))
      (receiverCallText cx locals' target method (bound receiver :: boundAll rest) span (do
        let text ← exprText cx locals' (bound receiver)
        let texts ← third
        return text :: texts)) := by
  unfold receiverCallText
  cases cx.model.class? target with
  | none => exact .fail _ _
  | some found =>
    simp only [bind_assoc, pure_bind]
    refine htext.bind fun _ text text' hw => htexts.bind fun _ texts texts' hws => .ok ?_
    have hargs := Outweighs.cons hw hws
    rcases hreceiver with hthis | hreceiver
    · obtain ⟨place, rfl⟩ := Expr.eq_this hthis
      have hraw : isSharedHandle cx locals' (bound (.thisRef place)) = false := by
        simp only [isSharedHandle, bound, h.typeOf_receiver]
      have hshared : isSharedHandle cx locals (.thisRef place) = cx.model.isSharedClass owner := by
        simp only [isSharedHandle, h.typeOf_this]
      simp only [hraw, hshared, Bool.false_eq_true, if_false, String.append_empty]
      cases hclass : cx.model.isSharedClass owner with
      | false =>
        simp only [Bool.false_eq_true, if_false, String.append_empty]
        exact (lighter_argList hargs _).mono And.right fun hparts => ⟨fun _ _ _ => hclass, hparts⟩
      | true =>
        -- The dot before `get` is the difference.
        have hdot : weight ".get()" = 1 := by decide
        have hle := hargs.le
        have hfirst (hcall : ∀ head, (Expr.thisRef place :: rest).head? = some head →
            head.isThis = true → cx.model.isSharedClass owner = false) : False := by
          have hfalse := hcall _ rfl rfl
          rw [hclass] at hfalse
          cases hfalse
        simp only [weightAll, List.map_cons, List.sum_cons] at hle
        refine ⟨fun hcall => (hfirst hcall.1).elim, ?_, fun hsum => ?_⟩
        · simp only [if_true, weight_append, weight_argList, weightAll, List.map_cons, List.sum_cons,
            hdot]
          omega
        · simp only [if_true, weight_append, weight_argList, weightAll, List.map_cons, List.sum_cons,
            hdot] at hsum
          omega
    · rw [isSharedHandle_bound h hreceiver]
      have hplaced (head : Expr) (hhead : (receiver :: rest).head? = some head)
          (hthis : head.isThis = true) : cx.model.isSharedClass owner = false := by
        cases hhead
        rw [hreceiver.not_this] at hthis
        cases hthis
      have hsuffix := (hw.map (· ++ if isSharedHandle cx locals receiver then ".get()" else "") _
        fun value => weight_append value _).cons hws
      exact (lighter_argList hsuffix _).mono And.right fun hparts => ⟨hplaced, hparts⟩

theorem methodCallText_bound (h : Rebinding owner locals locals') {object : Expr} {name : String}
    (hobject : object.isThis = true ∨ Placed (NotOwn cx.model owner) object) {place : Span}
    (hown : ∀ other, (Expr.property place object name).ownMember? = some other →
      NotOwn cx.model owner other)
    (htext : Agree (Lighter weight (Carried True cx.model owner object)
      (Carried False cx.model owner object)) (exprTextAs cx word locals object)
      (exprTextAs cx Spelling.receiver locals object) (exprText cx locals' (bound object)))
    (span : Span) {typeArgs : Option (List TypeNode)} {args : List Expr}
    {first second third : Lowered (List String)}
    (htexts : Agree (Lighter weightAll (CarriedAll True cx.model owner args)
      (CarriedAll False cx.model owner args)) first second third) :
    Agree (Lighter weight
        (Carried True cx.model owner (.call span (.property place object name) typeArgs args))
        (Carried False cx.model owner (.call span (.property place object name) typeArgs args)))
      (methodCallTextAs cx word locals object name span (exprTextAs cx word locals object) first)
      (methodCallTextAs cx Spelling.receiver locals object name span
        (exprTextAs cx Spelling.receiver locals object) second)
      (methodCallText cx locals' (bound object) name span (exprText cx locals' (bound object))
        third) := by
  -- No method is called on the current instance any more, so nothing is asked of the call itself.
  have hcall (other : String) (hother : (Expr.property place object name).ownMember? = some other)
      (hdeclares : cx.model.declaresMethod owner other = true) :
      other ≠ Spelling.destructor ∧ cx.model.isSharedClass owner = false := by
    have hno := hown other hother
    rw [NotOwn, hdeclares] at hno
    cases hno
  have hproperty : Agree (Lighter weight (Carried True cx.model owner (.property place object name))
        (Carried False cx.model owner (.property place object name)))
      (propertyTextAs cx word locals object name span (exprTextAs cx word locals object))
      (propertyTextAs cx Spelling.receiver locals object name span
        (exprTextAs cx Spelling.receiver locals object))
      (propertyText cx locals' (bound object) name span (exprText cx locals' (bound object))) :=
    propertyText_bound h hobject htext name span
  rcases hobject with hthis | hobject
  · -- On the current instance nothing is called but a field.
    obtain ⟨place', rfl⟩ := Expr.eq_this hthis
    have hno : cx.model.declaresMethod owner name = false := hown name rfl
    simp only [methodCallTextAs, methodCallText, h.typeOf_this, bound, h.typeOf_receiver]
    cases hclass : cx.model.class? owner with
    | none => exact .fail _ _
    | some found =>
      obtain ⟨item, info⟩ := found
      have hmethod : (info.method? name).isSome = false := by
        simpa [Names.declaresMethod, Names.classInfo?, hclass] using hno
      have hdestructor : ¬ (name = Spelling.destructor ∧ info.hasDestructor = true) := by
        rintro ⟨rfl, hd⟩
        rw [ClassInfo.hasDestructor, hmethod] at hd
        cases hd
      simp only [hdestructor, if_false]
      split
      · exact .fail _ _
      · exact applied_bound hcall hproperty htexts
  · simp only [methodCallTextAs, methodCallText, typeOf_bound h object hobject]
    cases cx.model.typeOf locals object with
    | classTy ownerName =>
      dsimp only
      cases cx.model.class? ownerName with
      | none => exact .fail _ _
      | some found =>
        dsimp only
        split
        · -- A destructor is called without its arguments, which are not asked about either.
          rename_i hdestructor
          refine (memberText_bound hobject _ _ span htext).bind fun _ _ _ hw => .ok ?_
          refine (hw.map (· ++ "()") _ fun value => weight_append value _).mono
            (fun hc => hc.2.1 (.inl trivial)) fun hpart => ⟨hcall, fun _ => hpart, fun hname => ?_⟩
          rcases hname with hfalse | hname
          · exact hfalse.elim
          · exact absurd (congrArg some hdestructor.1) hname
        · split
          · exact .fail _ _
          · exact applied_bound hcall hproperty htexts
    | moduleTy specifier =>
      dsimp only
      split
      · exact applied_bound hcall hproperty htexts
      · exact .fail _ _
    | interfaceTy interfaceName => exact .fail _ _
    | _ => exact applied_bound hcall hproperty htexts

end Owners

mutual

/-- An expression with the receiver parameter in place is written like the one it comes from, with
the parameter's name for the current instance, unless the current instance is passed on in it. -/
theorem exprText_bound [cx.model.Typed] (h : Rebinding owner locals locals') : ∀ value : Expr,
    value.isThis = true ∨ Placed (NotOwn cx.model owner) value →
      Agree (Lighter weight (Carried True cx.model owner value) (Carried False cx.model owner value))
        (exprTextAs cx word locals value) (exprTextAs cx Spelling.receiver locals value)
        (exprText cx locals' (bound value))
  | .ident span name, hv => by
    have hname : name ≠ Spelling.receiver := hv.resolve_left nofun
    simp only [exprTextAs, bound, exprText, identText, valueName, h.binds hname]
    exact lighter_refl _ trivial
  | .thisRef span, _ => by
    simp only [exprTextAs, bound, h.requireThis, h.receiverText]
    exact .ok (.refl _ trivial)
  | .literal .., _ => by
    simp only [exprTextAs, bound, exprText]
    exact lighter_refl _ trivial
  | .property span object name, hv => by
    have hobject := hv.resolve_left nofun
    simp only [exprTextAs, bound, exprText]
    exact propertyText_bound h hobject (exprText_bound h object hobject) name span
  | .call span callee typeArgs args, hv => by
    obtain ⟨hown, hcallee, hargs⟩ := hv.resolve_left nofun
    have htexts := exprTexts_bound h args hargs
    cases hnamed : callee.isNamed with
    | true =>
      cases callee with
      | ident place name =>
        simp only [exprTextAs, bound, exprText, h.binds hcallee]
        have hcall : Carried True cx.model owner (.call span (.ident place name) typeArgs args) →
            CarriedAll True cx.model owner args := fun hc => hc.2.2 (.inl trivial)
        have hcall' (hc : CarriedAll False cx.model owner args) :
            Carried False cx.model owner (.call span (.ident place name) typeArgs args) :=
          ⟨nofun, trivial, fun _ => hc⟩
        split
        · refine htexts.bind fun _ _ _ hws => .ok ?_
          exact (lighter_argList hws _).mono hcall hcall'
        · refine lighter_mono (functionCallText_bound name span typeArgs hargs htexts ?_) hcall hcall'
          rintro rfl
          trivial
      | property place object name =>
        simp only [exprTextAs, bound, exprText]
        exact methodCallText_bound h hcallee hown (exprText_bound h object hcallee) span htexts
      | _ => cases hnamed
    | false =>
      -- A callee that is no name stays one when it is bound, unless it is the receiver itself.
      have hnamed' : (bound callee).isNamed = false := by
        cases callee with
        | thisRef => exact hcallee.elim
        | ident | property => cases hnamed
        | _ => rfl
      have hmember : callee.ownMember? = none := by
        cases callee with
        | property => cases hnamed
        | _ => rfl
      rw [exprTextAs_call cx locals _ hnamed, exprTextAs_call cx locals _ hnamed, bound,
        exprText_call cx locals' hnamed']
      refine applied_bound ?_ (exprText_bound h callee (.inr hcallee)) htexts
      rw [hmember]
      nofun
  | .new span target args, hv => by
    simp only [exprTextAs, bound, exprText]
    exact newText_bound target span (exprTexts_bound h args (hv.resolve_left nofun))
  | .binary _ op left right, hv => by
    obtain ⟨hleft, hright⟩ := hv.resolve_left nofun
    simp only [exprTextAs, bound, exprText]
    refine (exprText_bound h left (.inr hleft)).bind fun _ _ _ hw => ?_
    refine (exprText_bound h right (.inr hright)).bind fun _ _ _ hw' => .ok ?_
    have hboth := (hw.within "" (" " ++ op.spelling ++ " ")).append hw'
    simp only [String.empty_append, ← String.append_assoc] at hboth
    exact hboth
  | .unary _ op operand, hv => by
    simp only [exprTextAs, bound, exprText]
    refine (exprText_bound h operand (.inr (hv.resolve_left nofun))).bind fun _ _ _ hw => .ok ?_
    have hoperand := hw.within op.spelling ""
    simp only [String.append_empty] at hoperand
    exact hoperand
  | .paren _ inner, hv => by
    simp only [exprTextAs, bound, exprText]
    refine (exprText_bound h inner (.inr (hv.resolve_left nofun))).bind fun _ _ _ hw => .ok ?_
    exact hw.within "(" ")"
  | .comma _ items, hv => by
    simp only [exprTextAs, bound, exprText]
    refine (exprTexts_bound h items (hv.resolve_left nofun)).bind fun _ _ _ hws => .ok ?_
    exact hws.map commaList 0 weight_commaList
  | .receiverCall span target method [], _ => by
    simp only [exprTextAs, receiverCallText]
    split <;> exact .fail _ _
  | .receiverCall span target method (receiver :: rest), hv => by
    obtain ⟨hreceiver, hrest⟩ : PlacedArgs (NotOwn cx.model owner) (receiver :: rest) :=
      hv.resolve_left nofun
    simp only [exprTextAs, bound, exprText, exprTextsAs, boundAll, exprTexts]
    exact receiverCallText_bound h target method hreceiver span (exprText_bound h receiver hreceiver)
      (exprTexts_bound h rest hrest)

theorem exprTexts_bound [cx.model.Typed] (h : Rebinding owner locals locals') : ∀ items : List Expr,
    PlacedAll (NotOwn cx.model owner) items →
      Agree (Lighter weightAll (CarriedAll True cx.model owner items)
          (CarriedAll False cx.model owner items))
        (exprTextsAs cx word locals items) (exprTextsAs cx Spelling.receiver locals items)
        (exprTexts cx locals' (boundAll items))
  | [], _ => by
    simp only [exprTextsAs, boundAll, exprTexts]
    exact .ok (.refl _ trivial)
  | item :: rest, hv => by
    simp only [exprTextsAs, boundAll, exprTexts]
    refine (exprText_bound h item (.inr hv.1)).bind fun _ _ _ hw => ?_
    exact (exprTexts_bound h rest hv.2).bind fun _ _ _ hws => .ok (hw.cons hws)

end

/-- Through a pointer the destructor is not found: only the method's text has the tilde. -/
theorem destruction_bound [cx.model.Typed] (h : Rebinding owner locals locals')
    (hdeclared : cx.model.declaresMethod owner Spelling.destructor = true) (span place place' : Span)
    (typeArgs : Option (List TypeNode)) :
    Agree (fun _ text text' => weight text' < weight text)
      (exprTextAs cx word locals
        (.call span (.property place (.thisRef place') Spelling.destructor) typeArgs []))
      (exprTextAs cx Spelling.receiver locals
        (.call span (.property place (.thisRef place') Spelling.destructor) typeArgs []))
      (exprText cx locals'
        (bound (.call span (.property place (.thisRef place') Spelling.destructor) typeArgs []))) := by
  simp only [exprTextAs, exprTextsAs, bound, boundAll, exprText, exprTexts, methodCallTextAs,
    methodCallText, h.typeOf_this, h.typeOf_receiver]
  cases hclass : cx.model.class? owner with
  | none => exact .fail _ _
  | some found =>
    obtain ⟨item, info⟩ := found
    have hinfo : info.hasDestructor = true := by
      simpa [ClassInfo.hasDestructor, Names.declaresMethod, Names.classInfo?, hclass] using hdeclared
    have hword : identText cx locals' Spelling.receiver place' = .ok Spelling.receiver :=
      h.receiverText place'
    simp only [hinfo, and_self, if_true, memberTextAs, instanceMemberTextAs, Expr.isThis,
      h.requireThis, propertyText,
      h.typeOf_receiver, memberText, separator, hword, Bool.false_eq_true, if_false]
    refine .ok ?_
    have hpointer : weight (Spelling.receiver ++ cx.piece ("->" ++ Spelling.destructor) ++ argList [])
        = 0 := by
      rw [weight_append, weight_append, weight_piece]
      decide
    have htilde : weight "~" = 1 := by decide
    rw [hpointer, weight_append, weight_piece, Naming.destructor]
    simp only [weight_append, htilde]
    omega

/-- **An expression of a statement is written in both bodies**, and the method's text is the heavier
one where the two differ. -/
theorem fits_bound [cx.model.Typed] (h : Rebinding owner locals locals') {whole : Prop}
    {value : Expr} (hvalue : Fits whole cx.model owner (NotOwn cx.model owner) value) :
    Agree (Lighter weight (Carried True cx.model owner value) (Carried False cx.model owner value))
      (exprTextAs cx word locals value) (exprTextAs cx Spelling.receiver locals value)
      (exprText cx locals' (bound value)) := by
  rcases hvalue.1 with hdestruction | hplaced
  · obtain ⟨span, place, place', typeArgs, rfl⟩ := eq_destruction hdestruction
    cases hdeclared : cx.model.declaresMethod owner Spelling.destructor with
    | false =>
      refine exprText_bound h _ (.inr ⟨?_, .inl rfl, trivial⟩)
      intro name hname
      cases hname
      exact hdeclared
    | true =>
      intro text htext
      obtain ⟨text', text'', hsecond, hthird, hlt⟩ :=
        destruction_bound h hdeclared span place place' typeArgs text htext
      have hnot (hc : Carried True cx.model owner
          (.call span (.property place (.thisRef place') Spelling.destructor) typeArgs [])) : False :=
        (hc.1 _ rfl hdeclared).1 rfl
      exact ⟨text', text'', hsecond, hthird, fun hc => (hnot hc).elim, hlt.le,
        fun hle => absurd hlt hle.not_gt⟩
  · exact exprText_bound h value (.inr hplaced)

end Texts

end Receiver

end NativeLowering
