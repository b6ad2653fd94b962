import NativeLowering.Proofs.Emit.Annotated
import NativeLowering.Proofs.Emit.Shapes
import NativeLowering.Proofs.Model.Build
import NativeLowering.Proofs.Receiver.Drafts

/-!
# A method and its receiver function have the same body

If receivers are made explicit, a method of a class is written twice: as a member, and as a free
function that takes the instance as its first parameter. `receiverFunction_sameBody` says when the
bodies are the same text, up to the word for the instance: if the body is carried over
(`Receiver.Carried`), and only if it is, as far as its parts are written. The bodies are those that
can be compared at all (`Receiver.Comparable`). `uncarried_bodies_differ` has a body that is not
carried over, and one for each condition of `Comparable`.
-/

set_option autoImplicit false

namespace NativeLowering

open Stmt (AllList)

/-! ## Parameters -/

namespace Receiver

open Emit

variable {cx : Context} {owner : String}

theorem Rebinding.start (owner : String) :
    Rebinding owner (.start (some owner))
      ((Locals.start none).declare Spelling.receiver (.pointer (.classTy owner))) where
  framed := by simp [Locals.start]
  framed' := Locals.declare_frames_ne_nil (by simp [Locals.start]) _ _
  this := rfl
  receiver := by
    rw [Locals.lookup?_declare (by simp [Locals.start]), if_pos rfl]
  others := by
    intro name hname
    rw [Locals.lookup?_declare (by simp [Locals.start]), if_neg hname]
    rfl
  modules := nofun

theorem Rebinding.params [cx.model.Typed] :
    ∀ {params : List Param} {locals locals' after after' : Locals}
    {records records' : List ParamRecord}, Rebinding owner locals locals' →
    (∀ param ∈ params, param.name.ident? ≠ some Spelling.receiver) →
    paramRecords cx locals params = .ok (records, after) →
    paramRecords cx locals' params = .ok (records', after') → Rebinding owner after after'
  | [], _, _, _, _, _, _, h, _, hrun, hrun' => by
    cases hrun
    cases hrun'
    exact h
  | param :: rest, locals, locals', after, after', _, _, h, hnames, hrun, hrun' => by
    simp only [paramRecords, paramRecord, Lowered.bind_eq_ok, Lowered.pure_eq_ok, Prod.exists,
      Prod.mk.injEq] at hrun hrun'
    obtain ⟨_, _, ⟨name, hname, node, hnode, _, -, _, -, -, rfl⟩, _, _, hrest, -, rfl⟩ := hrun
    obtain ⟨_, _, ⟨name', hname', node', hnode', _, -, _, -, -, rfl⟩, _, _, hrest', -, rfl⟩ := hrun'
    rw [hname] at hname'
    cases hname'
    rw [hnode] at hnode'
    cases hnode'
    refine Rebinding.params (h.declare ?_ (cx.model.typeFromNode_ne_module node))
      (fun other hm => hnames other (by simp [hm])) hrest hrest'
    rintro rfl
    exact hnames param (by simp) (congrArg BindingName.ident? (paramName_eq_ok hname))

/-! ## The two bodies -/

/-- The record of a class member, with a word for the current instance. -/
def memberRecordAs (cx : Context) (word : String) (shape : FunctionShape) : Lowered FunctionRecord :=
  functionRecordWith cx (exprTextAs cx word) shape

theorem memberRecordAs_this (cx : Context) (shape : FunctionShape) :
    memberRecordAs cx "this" shape = functionRecord cx shape := by
  have hspell : exprTextAs cx "this" = exprText cx := by
    funext locals value
    exact exprTextAs_this cx locals value
  rw [memberRecordAs, hspell, functionRecord]

/-- What is asked of a body besides. No global has the parameter's name. The own destructor is called
by a statement and without arguments, if at all. Its stages are settled. -/
structure Comparable (model : Model) (owner : String) (body : List Stmt) : Prop where
  portable : AllList (fun value => value.isOwnDestruction = true ∨ Portable model owner value)
    (fun _ _ => True) body
  settled : Stmt.SettledList body

theorem Comparable.fits {model : Model} {owner : String} {body : List Stmt}
    (h : Comparable model owner body)
    (hthis : AllList Expr.ThisAsObject (fun name _ => name.ident? ≠ some Spelling.receiver) body) :
    AllList (Fits (CarriedBody True model owner body) model owner (SparesOwn model owner))
      (fun name _ => name.ident? ≠ some Spelling.receiver) body := by
  have hplaced : AllList (fun value => value.isOwnDestruction = true ∨
      Placed (SparesOwn model owner) value)
      (fun name _ => name.ident? ≠ some Spelling.receiver) body := by
    refine (hthis.and h.portable).imp (fun value hvalue => ?_) fun _ _ hd => hd.1
    exact hvalue.2.imp_right fun hportable => placed_of_portable value hvalue.1 hportable
  by_cases hwhole : CarriedBody True model owner body
  · refine (hplaced.and hwhole).imp (fun value hvalue => ?_) fun _ _ hd => hd.1
    exact ⟨hvalue.1, fun _ => hvalue.2⟩
  · refine hplaced.imp (fun value hvalue => ?_) fun _ _ hd => hd
    exact ⟨hvalue, fun h => absurd h hwhole⟩

/-- The receiver parameter is a pointer to an instance of the class. -/
theorem typeFromOption_receiverParam [cx.model.Typed] {decl : ClassDecl} {names : ClassNames}
    (hnames : ClassNamed cx decl names)
    (hbuiltin : Vocabulary.BuiltinType.ofString? names.declared ≠ some .pointer) (place : Span) :
    cx.model.typeFromOption (receiverParam names.declared place).type
      = .pointer (.classTy names.declared) := by
  obtain ⟨declared, item, info, -, hclass, rfl⟩ := hnames
  obtain ⟨hitem, hinfo⟩ := Names.class?_eq_some.mp hclass
  have hbuiltin : Vocabulary.BuiltinType.ofString? declared ≠ some .pointer := hbuiltin
  simp only [receiverParam, Model.typeFromOption, classNames]
  rw [cx.model.typeFromNode_pointer rfl, cx.model.typeFromNode_simple hbuiltin,
    Names.namedType_class hitem hinfo]

/-- The member with the receiver's name for the current instance, next to the receiver function. -/
theorem receiverRecord_body [cx.model.Typed] (hnamed : AddressNamed cx.model)
    (hreceiver : cx.options.passes.receiver = true) {decl : ClassDecl} {names : ClassNames}
    (hnames : ClassNamed cx decl names) {method : MethodDecl} {place : Span} {body : List Stmt}
    (hbody : method.body = some body)
    (hparams : ∀ param ∈ method.params, param.name.ident? ≠ some Spelling.receiver)
    (hthis : AllList Expr.ThisAsObject (fun name _ => name.ident? ≠ some Spelling.receiver) body)
    (hcomparable : Comparable cx.model names.declared body) {shape shape' : FunctionShape}
    (hshape : methodShape cx names method place = .ok shape)
    (hshape' : receiverShape cx names method place = .ok shape') {member function : FunctionRecord}
    (hmember : functionRecord cx shape = .ok member)
    (hfunction : functionRecord cx shape' = .ok function) :
    ∃ renamed, memberRecordAs cx Spelling.receiver shape = .ok renamed ∧
      function.hoisted = renamed.hoisted ∧
      (CarriedBody True cx.model names.declared body → function.body = renamed.body) ∧
      (function.body = renamed.body → CarriedBody False cx.model names.declared body) := by
  -- The shapes share parameters and body, apart from the receiver.
  obtain ⟨hsource, hshapeParams, hshapeThis⟩ := methodShape_parts hshape
  obtain ⟨source', hsource', hbound, -, hshapeParams', hshapeThis'⟩ := receiverShape_parts hshape'
  rw [hbody] at hsource hsource'
  cases hsource
  cases hsource'
  rw [bindReceiver_settled hcomparable.settled] at hbound
  have hboundBody := (Except.ok.inj hbound).symm
  rw [← memberRecordAs_this] at hmember
  obtain ⟨records, locals, lowered, draft, hrecords, hlowered, hdraft, -⟩ :=
    functionRecordWith_eq_ok.mp hmember
  obtain ⟨records', locals', lowered', draft', hrecords', hlowered', hdraft', rfl⟩ :=
    functionRecordWith_eq_ok.mp hfunction
  rw [hshapeParams', hshapeThis'] at hrecords'
  obtain ⟨hbuiltin, others, -, hothers⟩ := receiverParams_records hnames hrecords'
  rw [typeFromOption_receiverParam hnames hbuiltin] at hothers
  have hlocals : Rebinding names.declared locals locals' := by
    rw [hshapeThis, hshapeParams] at hrecords
    exact .params (.start names.declared) hparams hrecords hothers
  -- The passes do the same to both bodies, and what they leave is written side by side.
  obtain ⟨hfits, hrun, hback⟩ := bodies_transport hnamed cx.options.destructorPolicy hreceiver hlocals
    (hcomparable.fits hthis) hlowered (Draft.stmts_annotated hdraft)
  rw [hboundBody, loweredBody, hrun] at hlowered'
  cases hlowered'
  obtain ⟨renamed, function, hrenamed, hfunction, hsame⟩ := stmts_bound hfits 1 hlocals draft hdraft
  rw [hdraft'] at hfunction
  cases hfunction
  refine ⟨recordOf cx shape records renamed,
    functionRecordWith_eq_ok.mpr ⟨_, _, _, _, hrecords, hlowered, hrenamed, rfl⟩, ?_, ?_, ?_⟩
  · simp only [recordOf, hsame.hoisted]
  · intro hcarried
    have hparts := hsame.parts.same (hfits.imp (fun _ hv => hv.2 hcarried) fun _ _ _ => trivial)
    have htext : draft'.text = renamed.text := congrArg Prod.fst hparts
    simp only [recordOf, htext]
  · intro hbodies
    refine hback (hsame.parts.fine ?_)
    have htext : draft'.text = renamed.text := by
      have hwritten := congrArg Buffer.text hbodies
      simpa [recordOf, Buffer.write, Buffer.atDepth] using hwritten
    simp only [weightParts, Draft.parts, htext, stmts_before hrenamed, stmts_before hdraft', le_refl]

theorem addressNamed_of_build {program : Program} {preludes : List Program}
    {model : TypedModel} (h : Model.build program preludes = .ok model) : AddressNamed model := by
  intro symbol hsymbol hname
  have hbuiltin := Model.build_builtin h hsymbol
  rw [hname] at hbuiltin
  revert hbuiltin
  decide

/-- **When a method and its receiver function have the same body.** Take a method of one of the
program's own classes that is not a destructor, declares nothing of the receiver's name and mentions
the current instance only as an object, and let the program be written. If the whole body is carried
over, then the body of the free function is the body of the member, with the receiver's name wherever
the member has `this`. If it is not, in a part that is certain to be written, then the two differ. -/
theorem receiverFunction_sameBody {options : Options} {program : Program}
    {preludes : List Program} {model : TypedModel} {text : String}
    (hmodel : Model.build program preludes = .ok model)
    (hreceiver : options.passes.receiver = true)
    (htext : generate options program preludes = .ok text) {span place : Span} {decl : ClassDecl}
    {method : MethodDecl} {owner : String} {body : List Stmt}
    (hdecl : .classDecl span decl ∈ program.decls) (hown : decl.declared = false)
    (howner : decl.name = some owner) (hmethod : .method place method ∈ decl.members)
    (hname : method.name ≠ Spelling.destructor) (hbody : method.body = some body)
    (hparams : ∀ param ∈ method.params, param.name.ident? ≠ some Spelling.receiver)
    (hthis : AllList Expr.ThisAsObject (fun name _ => name.ident? ≠ some Spelling.receiver) body)
    (hcomparable : Comparable model owner body) :
    ∃ output names shape shape' renamed,
      programOutput ⟨model, options⟩ program = .ok output ∧
      text = (output.session options.layout).text options.outputOrder ∧
      ClassNamed ⟨model, options⟩ decl names ∧
      methodShape ⟨model, options⟩ names method place = .ok shape ∧
      receiverShape ⟨model, options⟩ names method place = .ok shape' ∧
      (∃ record ∈ output.classes, record.name = names.written ∧ ∃ member ∈ record.methods,
        memberRecordAs ⟨model, options⟩ "this" shape = .ok member.function) ∧
      memberRecordAs ⟨model, options⟩ Spelling.receiver shape = .ok renamed ∧
      ∃ function ∈ output.functions, functionRecord ⟨model, options⟩ shape' = .ok function ∧
        function.name = Naming.receiverFunction names.written method.name ∧
        function.params.head? = some
          ⟨options.layout.inline (names.written ++ "*"), Spelling.receiver, none⟩ ∧
        function.hoisted = renamed.hoisted ∧
        (CarriedBody True model owner body → function.body = renamed.body) ∧
        (function.body = renamed.body → CarriedBody False model owner body) := by
  obtain ⟨built, hbuilt, hwritten⟩ := Lowered.bind_eq_ok.mp htext
  rw [hmodel] at hbuilt
  cases hbuilt
  obtain ⟨output, houtput, rfl⟩ := generateWith_eq hwritten
  obtain ⟨names, hnames, ⟨shape, hshape, record, hrecord, hclass, member, hin, hmember⟩, hfree⟩ :=
    method_written houtput hdecl hown hmethod
  obtain ⟨shape', function, hshape', hfunction, hinfun⟩ := hfree hreceiver hname
  have hdeclared : names.declared = owner := by
    obtain ⟨declared, item, info, hdeclared, -, rfl⟩ := hnames
    rw [howner] at hdeclared
    cases hdeclared
    rfl
  subst hdeclared
  obtain ⟨renamed, hrenamed, hsame⟩ := receiverRecord_body (addressNamed_of_build hmodel) hreceiver
    hnames hbody hparams hthis hcomparable hshape hshape' hmember hfunction
  obtain ⟨hfunctionName, hreceiverParam⟩ := receiverRecord_head hnames hshape' hfunction
  exact ⟨output, names, shape, shape', renamed, houtput, rfl, hnames, hshape, hshape',
    ⟨record, hrecord, hclass, member, hin, (memberRecordAs_this _ _).trans hmember⟩, hrenamed,
    function, hinfun, hfunction, hfunctionName, hreceiverParam, hsame⟩

/-! ## A counter -/

/-- A method without parameters or a result. -/
def procedure (name : String) (body : List Stmt) : MethodDecl :=
  { decorators := [], visibility := .publicMember, name, params := []
    returnType := some (.keyword {} .void), body := some body }

/-- A counter that can be reset, and restarted in some way. -/
def counter (decorators : List Decorator) (restart : List Stmt) : ClassDecl :=
  { decorators, declared := false, name := some "Counter"
    members := [.method {} (procedure "reset" []), .method {} (procedure Spelling.destructor []),
      .method {} (procedure "restart" restart)] }

/-- A function of the receiver's name, and the counter. -/
def counterProgram (decorators : List Decorator) (restart : List Stmt) : Program :=
  ⟨[.functionDecl {}
      { decorators := [], declared := false, name := some Spelling.receiver, typeParams := []
        params := [], returnType := some (.keyword {} .void), body := some [] },
    .classDecl {} (counter decorators restart)]⟩

def callOwn (name : String) : Stmt :=
  .expr {} (.call {} (.property {} (.thisRef {}) name) none [])

/-- A counter that is a value resets itself through its own method, which is carried over. -/
theorem receiverFunction_sameBody_valueCounter :
    ∃ model text output names shape shape' renamed,
      Model.build (counterProgram [⟨{}, "struct", []⟩] [callOwn "reset"]) [] = .ok model ∧
      programOutput ⟨model, explicitReceivers⟩
        (counterProgram [⟨{}, "struct", []⟩] [callOwn "reset"]) = .ok output ∧
      text = (output.session explicitReceivers.layout).text explicitReceivers.outputOrder ∧
      methodShape ⟨model, explicitReceivers⟩ names (procedure "restart" [callOwn "reset"]) {}
        = .ok shape ∧
      receiverShape ⟨model, explicitReceivers⟩ names (procedure "restart" [callOwn "reset"]) {}
        = .ok shape' ∧
      memberRecordAs ⟨model, explicitReceivers⟩ Spelling.receiver shape = .ok renamed ∧
      ∃ function ∈ output.functions, functionRecord ⟨model, explicitReceivers⟩ shape' = .ok function ∧
        function.body = renamed.body := by
  have hvalue : (Model.build (counterProgram [⟨{}, "struct", []⟩] [callOwn "reset"]) []).toOption.map
      (·.isSharedClass "Counter") = some false := by decide +kernel
  have hwritten : (generate explicitReceivers
      (counterProgram [⟨{}, "struct", []⟩] [callOwn "reset"]) []).toOption.isSome = true := by
    decide +kernel
  cases hmodel : Model.build (counterProgram [⟨{}, "struct", []⟩] [callOwn "reset"]) [] with
  | error e =>
    rw [hmodel] at hvalue
    cases hvalue
  | ok model =>
    cases htext : generate explicitReceivers
        (counterProgram [⟨{}, "struct", []⟩] [callOwn "reset"]) [] with
    | error e =>
      rw [htext] at hwritten
      cases hwritten
    | ok text =>
      rw [hmodel] at hvalue
      have hcarried : CarriedBody True model "Counter" [callOwn "reset"] := by
        refine ⟨⟨fun name hname _ => ?_, fun _ => trivial, fun _ => trivial⟩, trivial⟩
        cases hname
        exact ⟨by decide, Option.some.inj hvalue⟩
      have hcomparable : Comparable model "Counter" [callOwn "reset"] := by
        refine ⟨⟨.inr ⟨fun name hname => ?_, trivial, trivial⟩, trivial⟩, trivial, trivial⟩
        cases hname
        exact nofun
      obtain ⟨output, names, shape, shape', renamed, houtput, htext', -, hshape, hshape', -, hrenamed,
        function, hin, hfunction, -, -, -, hsame, -⟩ := receiverFunction_sameBody hmodel rfl htext
          (List.mem_cons_of_mem _ List.mem_cons_self) rfl rfl
          (List.mem_cons_of_mem _ (List.mem_cons_of_mem _ List.mem_cons_self)) (by decide) rfl nofun
          ⟨⟨.inl rfl, trivial⟩, trivial⟩ hcomparable
      exact ⟨model, text, output, names, shape, shape', renamed, rfl, houtput, htext', hshape, hshape',
        hrenamed, function, hin, hfunction, hsame hcarried⟩

/-- The body of the counter's restart with the receiver's name for the current instance, and the
body of its receiver function, if the program is written. -/
def restartTexts (decorators : List Decorator) (restart : List Stmt) : Lowered (String × String) := do
  let program := counterProgram decorators restart
  let _ ← generate explicitReceivers program []
  let model ← Model.build program []
  let cx : Context := ⟨model, explicitReceivers⟩
  let names : ClassNames := ⟨"Counter", "tscc_Counter"⟩
  let member ← methodShape cx names (procedure "restart" restart) {} >>=
    memberRecordAs cx Spelling.receiver
  let function ← receiverShape cx names (procedure "restart" restart) {} >>= functionRecord cx
  return (member.body.text, function.body.text)

/-- A counter that is shared passes itself on as if it were a handle, which it is not. The other
conditions are needed as well: the destructor is not found through a pointer, a global of the
receiver's name is hidden by the parameter, and a stage with nothing in it is dropped on the way to
the receiver function. -/
theorem uncarried_bodies_differ :
    AllList Expr.ThisAsObject (fun name _ => name.ident? ≠ some Spelling.receiver)
      [callOwn "reset"] ∧
    (restartTexts [] [callOwn "reset"]).toOption = some
      ("    tscc_Counter_reset(self.get());\n", "    tscc_Counter_reset(self);\n") ∧
    (restartTexts [] [callOwn Spelling.destructor]).toOption = some
      ("    self->~tscc_Counter();\n", "    self->destructor();\n") ∧
    (restartTexts [] [.expr {} (.call {} (.ident {} Spelling.receiver) none [])]).toOption = some
      ("    tscc_self();\n", "    self();\n") ∧
    (restartTexts [] [.ifElse {} (.literal {} (.bool true)) (.staged {} [] (.block {} []))
      none]).toOption = some
        ("    if (true)\n    \x7b\n        \x7b\n        \x7d\n    \x7d\n",
          "    if (true)\n    \x7b\n    \x7d\n") := by
  refine ⟨⟨⟨.inl rfl, trivial⟩, trivial⟩, ?_, ?_, ?_, ?_⟩ <;> decide +kernel

end Receiver

end NativeLowering
