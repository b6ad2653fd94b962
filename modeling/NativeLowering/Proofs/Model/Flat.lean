import NativeLowering.Proofs.Layout.Endings
import NativeLowering.Proofs.Model.Typing
import NativeLowering.Proofs.Pass.Condition
import NativeLowering.Proofs.Surface.Spared

/-!
# Programs whose names keep to one line

The names of a program are flat if none of them holds a line feed or a carriage return: the names
that it declares and refers to, the spellings of its numbers, the specifiers of its imports and the
arguments of its decorators (`Program.Flat`). The values of its strings may hold what they like.

A model that is built from such sources has only flat names to write (`Model.build_flat`), the types
of expressions are written with flat names (`Names.typesMeet_flat`), and the passes keep a body flat
(`Names.Flat.closed`).
-/

set_option autoImplicit false

namespace NativeLowering

open NativeLowering.Expr (Meets)
open Vocabulary (Builtin BuiltinType)

/-! ## Syntax trees -/

mutual

def TypeNode.Flat : TypeNode → Prop
  | .keyword .. => True
  | .reference _ name args => (∀ part ∈ name, Text.Flat part) ∧ TypeNode.FlatList args

def TypeNode.FlatList : List TypeNode → Prop
  | [] => True
  | node :: rest => node.Flat ∧ TypeNode.FlatList rest

end

def TypeNode.FlatOption (type : Option TypeNode) : Prop := ∀ node, type = some node → node.Flat

theorem TypeNode.Flat.option {node : TypeNode} (h : node.Flat) :
    TypeNode.FlatOption (some node) := by
  intro other hother
  cases hother
  exact h

/-- A number is written in the spelling it has. -/
def Literal.Flat : Literal → Prop
  | .number spelling => Text.Flat spelling
  | .string _ | .bool _ | .null => True

/-- Every name and every number of an expression is flat. -/
def flatNodes : NodeCondition where
  name := Text.Flat
  literal := Literal.Flat
  types := TypeNode.FlatList
  comma _ := True
  receiver _ method _ := Text.Flat method

/-- The name and the annotation of a variable are flat. -/
def FlatBinding : DeclCondition := fun name type =>
  (∀ own, name = .ident own → Text.Flat own) ∧ TypeNode.FlatOption type

theorem flatBinding_ident {name : String} (hname : Text.Flat name) {type : Option TypeNode}
    (htype : TypeNode.FlatOption type) : FlatBinding (.ident name) type := by
  refine ⟨fun own hown => ?_, htype⟩
  cases hown
  exact hname

/-- The arguments of decorators are flat, as far as they are string literals. -/
def FlatArgs (decorators : List Decorator) : Prop :=
  ∀ decorator ∈ decorators, ∀ span text, .literal span (.string text) ∈ decorator.args →
    Text.Flat text

def ClassMember.Flat : ClassMember → Prop
  | .property _ decl => Text.Flat decl.name ∧ TypeNode.FlatOption decl.type
  | .method _ decl => Text.Flat decl.name ∧ TypeNode.FlatOption decl.returnType
  | .constructor .. => True

/-- What the declaration of an item declares and refers to outside bodies is flat. -/
def Decl.FlatItem : Decl → Prop
  | .classDecl _ decl =>
    (∀ name, decl.name = some name → Text.Flat name) ∧ FlatArgs decl.decorators ∧
      ∀ member ∈ decl.members, member.Flat
  | .functionDecl _ decl =>
    (∀ name, decl.name = some name → Text.Flat name) ∧ FlatArgs decl.decorators ∧
      TypeNode.FlatOption decl.returnType
  | .interfaceDecl _ decl => Text.Flat decl.name
  | .typeAlias _ name => Text.Flat name
  | .importDecl .. | .moduleDecl .. => True

/-- The names that an import binds items under, and those they are exported under. -/
def ImportClause.Flat : ImportClause → Prop
  | .named items => ∀ item ∈ items, Text.Flat item.name ∧ Text.Flat item.localName
  | .whole _ => True

/-- The same for any declaration, with the specifiers of imports and the bodies of modules. -/
def Decl.FlatNames : Decl → Prop
  | .importDecl _ decl =>
    (∀ span text, decl.specifier = .literal span (.string text) → Text.Flat text) ∧
      ∀ clause, decl.clause = some clause → clause.Flat
  | .moduleDecl _ decorators _ name body =>
    Text.Flat name ∧ FlatArgs decorators ∧ ∀ decl ∈ body, decl.FlatItem
  | decl => decl.FlatItem

/-- Every name, number, specifier and decorator argument of the program is flat. -/
def Program.Flat (program : Program) : Prop :=
  ∀ decl ∈ program.decls, decl.FlatNames ∧ decl.All (Meets flatNodes) FlatBinding

/-! ## Models -/

structure Traits.Flat (traits : Traits) : Prop where
  name : ∀ name, traits.nativeName = some name → Text.Flat name
  space : ∀ space, traits.nativeSpace = some space → Text.Flat space

def ItemInfo.Flat : ItemInfo → Prop
  | .classInfo info =>
    info.traits.Flat ∧ (∀ field ∈ info.fields, TypeNode.FlatOption field.type) ∧
      ∀ method ∈ info.methods, TypeNode.FlatOption method.returnType
  | .functionInfo info => info.traits.Flat ∧ TypeNode.FlatOption info.returnType
  | .interfaceInfo _ | .aliasInfo => True

structure Item.Flat (item : Item) : Prop where
  name : Text.Flat item.name
  info : item.info.Flat

structure AmbientModule.Flat (ambient : AmbientModule) : Prop where
  traits : ambient.traits.Flat
  members : ∀ name item, ambient.member? name = some item → item.Flat

def Symbol.Flat : Symbol → Prop
  | .item own => own.Flat
  | .ambient source => source.Flat

/-- Everything that names stand for is written with flat names, and types are known under such. -/
structure Names.Flat (names : Names) : Prop where
  value : ∀ name symbol, names.resolve? name = some symbol → symbol.Flat
  type : ∀ name symbol, names.resolveType? name = some symbol → Text.Flat name ∧ symbol.Flat
  module : ∀ specifier ambient, names.module? specifier = some ambient → ambient.Flat

/-! ### Written names -/

theorem Traits.Flat.writtenName {traits : Traits} (h : traits.Flat) {mangling declared : String}
    (hmangling : Text.Flat mangling) (hdeclared : Text.Flat declared) :
    Text.Flat (traits.writtenName mangling declared) := by
  unfold Traits.writtenName mangle
  cases hname : traits.nativeName with
  | none => exact hmangling.append hdeclared
  | some name => exact h.name name hname

theorem Item.Flat.writtenName {item : Item} (h : item.Flat) {mangling : String}
    (hmangling : Text.Flat mangling) : Text.Flat (item.writtenName mangling) := by
  have hinfo := h.info
  unfold Item.writtenName
  split
  · rename_i info heq
    rw [heq] at hinfo
    exact hinfo.1.writtenName hmangling h.name
  · rename_i info heq
    rw [heq] at hinfo
    exact hinfo.1.writtenName hmangling h.name
  · exact h.name
  · exact h.name

theorem Naming.flat_qualifiedIn {space : Option String}
    (hspace : ∀ own, space = some own → Text.Flat own) {name : String} (hname : Text.Flat name) :
    Text.Flat (Naming.qualifiedIn space name) := by
  cases space with
  | none => exact hname
  | some own => exact ((hspace own rfl).append (by decide)).append hname

namespace Names.Flat

variable {names : Names} (h : names.Flat)
include h

theorem class? {name : String} {item : Item} {info : ClassInfo}
    (hknown : names.class? name = some (item, info)) :
    Text.Flat name ∧ item.Flat ∧ (ItemInfo.classInfo info).Flat := by
  obtain ⟨hitem, hclass⟩ := Names.class?_eq_some.mp hknown
  obtain ⟨hname, hsymbol⟩ := h.type name _ hitem
  have hflat : item.Flat := hsymbol
  refine ⟨hname, hflat, ?_⟩
  have hinfo := hflat.info
  unfold Item.class? at hclass
  split at hclass
  · rename_i heq
    cases hclass
    rw [heq] at hinfo
    exact hinfo
  · cases hclass

theorem classInfo? {name : String} {info : ClassInfo} (hknown : names.classInfo? name = some info) :
    (ItemInfo.classInfo info).Flat := by
  obtain ⟨⟨item, found⟩, hfound, rfl⟩ := Option.map_eq_some_iff.mp hknown
  exact (h.class? hfound).2.2

omit h in
theorem ofFunction? {item : Item} (hitem : item.Flat) {info : FunctionInfo}
    (hknown : item.function? = some info) : (ItemInfo.functionInfo info).Flat := by
  have hinfo := hitem.info
  unfold Item.function? at hknown
  split at hknown
  · rename_i heq
    cases hknown
    rw [heq] at hinfo
    exact hinfo
  · cases hknown

theorem function? {name : String} {info : FunctionInfo}
    (hknown : names.function? name = some info) : (ItemInfo.functionInfo info).Flat := by
  obtain ⟨symbol, hsymbol, hinfo⟩ := Option.bind_eq_some_iff.mp hknown
  cases symbol with
  | item own => exact ofFunction? (h.value name _ hsymbol) hinfo
  | ambient source => cases hinfo

theorem exportedFunction? {specifier name : String} {info : FunctionInfo}
    (hknown : names.exportedFunction? specifier name = some info) :
    (ItemInfo.functionInfo info).Flat := by
  obtain ⟨ambient, hambient, hknown⟩ := Option.bind_eq_some_iff.mp hknown
  obtain ⟨member, hmember, hinfo⟩ := Option.bind_eq_some_iff.mp hknown
  exact ofFunction? ((h.module specifier ambient hambient).members name member hmember) hinfo

end Names.Flat

/-! ## Types -/

/-- The names in the type are flat. -/
def Ty.Flat : Ty → Prop
  | .classTy name | .interfaceTy name | .named name => Text.Flat name
  | .pointer inner => inner.Flat
  | .primitive _ | .moduleTy _ | .function | .unknown => True

theorem TypeNode.Flat.type (names : Names) : ∀ node : TypeNode, node.Flat →
    (names.typeFromNode node).Flat
  | .keyword .., _ => trivial
  | .reference _ [name] args, h => by
    have hnamed : (names.namedType name).Flat := by
      have hname : Text.Flat name := h.1 name (by simp)
      unfold Names.namedType
      split <;> exact hname
    cases args with
    | nil =>
      rw [Names.typeFromNode]
      split
      · trivial
      · exact hnamed
    | cons inner rest =>
      rw [Names.typeFromNode]
      split
      · exact TypeNode.Flat.type names inner h.2.1
      · exact hnamed
  | .reference _ [] _, _ => Text.flat_empty
  | .reference _ (first :: second :: rest) _, h =>
    Text.flat_intercalate (by decide) fun part hpart => h.1 part hpart

theorem TypeNode.Flat.denoted (model : Model) [model.Typed] {node : TypeNode} (h : node.Flat) :
    (model.typeFromNode node).Flat := by
  rw [model.typeFromNode_eq]
  exact h.type model node

/-- The components of a flat name are flat. -/
theorem flat_nameComponents {name : String} (h : Text.Flat name) :
    ∀ part ∈ nameComponents name, Text.Flat part := by
  rw [← nameComponents_joined name] at h
  exact Text.flat_of_intercalate h

theorem Ty.Flat.node {type : Ty} (h : type.Flat) {span : Span} {node : TypeNode}
    (hnode : type.toTypeNode? span = some node) : node.Flat := by
  induction type generalizing node with
  | classTy name | interfaceTy name | named name =>
    cases hnode
    exact ⟨flat_nameComponents h, trivial⟩
  | pointer inner ih =>
    obtain ⟨written, hwritten, rfl⟩ := Option.map_eq_some_iff.mp hnode
    refine ⟨?_, ih h hwritten, trivial⟩
    intro part hpart
    obtain rfl := List.mem_singleton.mp hpart
    decide
  | primitive keyword =>
    cases hnode
    trivial
  | moduleTy | function | unknown => cases hnode

/-- Typing finds types with flat names. -/
theorem Names.typesMeet_flat {names : Names} (h : names.Flat) : names.TypesMeet Ty.Flat where
  primitive _ := trivial
  function := trivial
  unknown := trivial
  target hinner := hinner
  ambient _ := trivial
  made hclass := by
    obtain ⟨found, hfound⟩ := Option.isSome_iff_exists.mp hclass
    exact (h.class? hfound).1
  field hinfo hfield hnode := ((h.classInfo? hinfo).2.1 _ hfield _ hnode).type names
  method hinfo hmethod hnode := ((h.classInfo? hinfo).2.2 _ hmethod _ hnode).type names
  result hinfo hnode := ((h.function? hinfo).2 _ hnode).type names
  exported hinfo hnode := ((h.exportedFunction? hinfo).2 _ hnode).type names

/-! ## Passes -/

theorem flat_temporary (n : Nat) : Text.Flat (Spelling.temporary n) := by
  have hdigits : ∀ c ∈ n.repr.toList, c.isDigit = true := by
    intro c hc
    rw [Nat.toList_repr] at hc
    exact Nat.isDigit_of_mem_toDigits (by decide) (by decide) hc
  have hrepr : Text.Flat n.repr := by
    constructor
    · intro hfeed
      exact absurd (hdigits _ hfeed) (by decide)
    · intro hreturn
      exact absurd (hdigits _ hreturn) (by decide)
  exact Text.Flat.append (by decide) hrepr

/-- What the passes put into a flat body is flat. -/
theorem Names.Flat.closed {model : Model} [model.Typed] (h : Names.Flat model) :
    flatNodes.Closed FlatBinding (Locals.TypesMeet Ty.Flat) model where
  push kind hlocals := hlocals.push kind
  declare hlocals hdecl _ :=
    hlocals.declare _ (Model.declaredType_meets (Names.typesMeet_flat h) hlocals fun node hnode =>
      (hdecl.1.2 node hnode).denoted model)
  noTypes := trivial
  pair := trivial
  destructor hname := ⟨hname.1 _ rfl, (by decide : Text.Flat Spelling.destructor)⟩
  address hsymbol := by
    obtain ⟨own, rfl, hfound⟩ := Names.builtin?_eq_some hsymbol
    have hflat : own.Flat := h.value _ _ hfound
    exact hflat.name
  receiver _ _ hmethod := hmethod
  temporary {_ value _ _} n hlocals _ hnode := by
    have htype := Model.typeOf_meets (Names.typesMeet_flat h) hlocals value
    exact ⟨flat_temporary n, flatBinding_ident (flat_temporary n) (htype.node hnode).option⟩

/-! ## Building -/

theorem Traits.flat_ofDecorators {decorators : List Decorator} (hargs : FlatArgs decorators)
    {declared : String} (hdeclared : Text.Flat declared) {traits : Traits}
    (h : Traits.ofDecorators decorators declared = .ok traits) : traits.Flat := by
  have harg {name : Vocabulary.DecoratorName} {args : List Expr} {found : Option String}
      (hargs' : Traits.args? decorators name = some args)
      (hfound : Traits.literalArg name args = .ok found) :
      ∀ text, found = some text → Text.Flat text := by
    obtain ⟨decorator, hdecorator, rfl⟩ := Option.map_eq_some_iff.mp hargs'
    unfold Traits.literalArg at hfound
    split at hfound
    · cases hfound
      exact nofun
    · rename_i span text rest heq
      cases hfound
      intro own hown
      cases hown
      exact hargs decorator (List.mem_of_find?_eq_some hdecorator) span _ (by simp [heq])
    · cases hfound
  simp only [Traits.ofDecorators, Lowered.bind_eq_ok, Lowered.pure_eq_ok] at h
  obtain ⟨_, -, nativeName, hname, nativeSpace, hspace, rfl⟩ := h
  constructor
  · intro own hown
    unfold Traits.nativeNameOf at hname
    split at hname
    · cases hname
      cases hown
    · rename_i args hargs'
      obtain ⟨found, hfound, hname⟩ := Lowered.map_eq_ok.mp hname
      dsimp only at hown
      rw [hname] at hown
      cases hown
      cases found with
      | none => exact hdeclared
      | some text => exact harg hargs' hfound text rfl
  · intro own hown
    unfold Traits.nativeSpaceOf at hspace
    split at hspace
    · cases hspace
      cases hown
    · rename_i args hargs'
      exact harg hargs' hspace own hown

theorem memberItem_flat {decl : Decl} (hdecl : decl.FlatItem) {item : Item}
    (h : memberItem decl = .ok item) : item.Flat := by
  cases decl with
  | classDecl span decl =>
    obtain ⟨hname, hargs, hmembers⟩ := hdecl
    rw [memberItem, classItem] at h
    split at h
    · cases h
    · rename_i name hown
      obtain ⟨traits, htraits, h⟩ := Lowered.bind_eq_ok.mp h
      cases h
      have hflat := hname name hown
      refine ⟨hflat, Traits.flat_ofDecorators hargs hflat htraits, ?_, ?_⟩
      · intro field hfield
        obtain ⟨member, hmember, hfield⟩ := List.mem_filterMap.mp hfield
        have hmember := hmembers member hmember
        cases member with
        | property place decl =>
          cases hfield
          exact hmember.2
        | method | constructor => cases hfield
      · intro method hmethod
        obtain ⟨member, hmember, hmethod⟩ := List.mem_filterMap.mp hmethod
        have hmember := hmembers member hmember
        cases member with
        | method place decl =>
          cases hmethod
          exact hmember.2
        | property | constructor => cases hmethod
  | functionDecl span decl =>
    obtain ⟨hname, hargs, hresult⟩ := hdecl
    rw [memberItem, functionItem] at h
    split at h
    · cases h
    · rename_i name hown
      obtain ⟨traits, htraits, h⟩ := Lowered.bind_eq_ok.mp h
      cases h
      have hflat := hname name hown
      exact ⟨hflat, Traits.flat_ofDecorators hargs hflat htraits, hresult⟩
  | interfaceDecl | typeAlias =>
    cases h
    exact ⟨hdecl, trivial⟩
  | importDecl | moduleDecl => cases h

theorem exportDecl_flat {specifier : String} {members after : List (String × Item)} {decl : Decl}
    (hdecl : decl.FlatItem) (hmembers : ∀ name item, members.lookup name = some item → item.Flat)
    (h : exportDecl specifier members decl = .ok after) :
    ∀ name item, after.lookup name = some item → item.Flat := by
  obtain ⟨own, hown, h⟩ := Lowered.bind_eq_ok.mp h
  split at h
  · cases h
    intro name item hitem
    rcases lookup_cons_cases hitem with ⟨-, rfl⟩ | hitem
    · exact memberItem_flat hdecl hown
    · exact hmembers name item hitem
  · split at h
    · cases h
      exact hmembers
    · cases h

theorem ambientModule_flat {span : Span} {decorators : List Decorator} {specifier : String}
    {body : List Decl} (hargs : FlatArgs decorators) (hbody : ∀ decl ∈ body, decl.FlatItem)
    (hspecifier : Text.Flat specifier) {ambient : AmbientModule}
    (h : ambientModule span decorators specifier body = .ok ambient) : ambient.Flat := by
  simp only [ambientModule, Lowered.bind_eq_ok, Lowered.pure_eq_ok] at h
  obtain ⟨traits, htraits, members, hmembers, rfl⟩ := h
  have hflat : ∀ name item, members.lookup name = some item → item.Flat :=
    foldlM_keeps (fun _ decl _ hdecl hkept hstep => exportDecl_flat (hbody decl hdecl) hkept hstep)
      (fun _ _ hitem => by cases hitem) hmembers
  exact ⟨Traits.flat_ofDecorators hargs hspecifier htraits, hflat⟩

namespace Names.Flat

variable {tables after : Tables} (h : tables.names.Flat)
include h

theorem enterValue {name : String} {symbol : Symbol} {span : Span}
    {values : List (String × Symbol)}
    (henter : enter tables.values name symbol span = .ok values) (hsymbol : symbol.Flat) :
    (Tables.names { tables with values }).Flat := by
  obtain ⟨-, rfl⟩ := enter_eq_ok.mp henter
  refine ⟨fun other found hfound => ?_, h.type, h.module⟩
  rcases lookup_cons_cases hfound with ⟨-, rfl⟩ | hfound
  · exact hsymbol
  · exact h.value other found hfound

theorem enterType {name : String} {symbol : Symbol} {span : Span} {types : List (String × Symbol)}
    (henter : enter tables.types name symbol span = .ok types) (hname : Text.Flat name)
    (hsymbol : symbol.Flat) :
    (Tables.names { tables with types }).Flat := by
  obtain ⟨-, rfl⟩ := enter_eq_ok.mp henter
  refine ⟨h.value, fun other found hfound => ?_, h.module⟩
  rcases lookup_cons_cases hfound with ⟨rfl, rfl⟩ | hfound
  · exact ⟨hname, hsymbol⟩
  · exact h.type other found hfound

theorem declare {decl : Decl} (hdecl : decl.FlatNames)
    (hrun : tables.declare decl = .ok after) : after.names.Flat := by
  cases Tables.declare_eq_ok.mp hrun with
  | importDecl | overload => exact h
  | @classDecl span decl _ _ _ hitem hvalues htypes =>
    have hown : (Decl.classDecl span decl).FlatItem := hdecl
    have hflat := memberItem_flat hown hitem
    exact (h.enterValue hvalues hflat).enterType htypes hflat.name hflat
  | @functionDecl span decl _ _ hitem hfirst hvalues =>
    have hown : (Decl.functionDecl span decl).FlatItem := hdecl
    exact h.enterValue hvalues (memberItem_flat hown hitem)
  | interfaceDecl htypes | typeAlias htypes => exact h.enterType htypes hdecl ⟨hdecl, trivial⟩
  | moduleDecl hnew hambient =>
    obtain ⟨hspecifier, hargs, hbody⟩ := hdecl
    refine ⟨h.value, h.type, fun other found hfound => ?_⟩
    rcases lookup_cons_cases hfound with ⟨-, rfl⟩ | hfound
    · exact ambientModule_flat hargs hbody hspecifier hambient
    · exact h.module other found hfound

theorem bindItem {ambient : AmbientModule} (hambient : ambient.Flat) {span : Span}
    {item : ImportItem} (hitem : Text.Flat item.localName)
    (hrun : Tables.bindItem ambient span tables item = .ok after) : after.names.Flat := by
  obtain ⟨member, values, types, hmember, hvalues, htypes, rfl⟩ := Tables.bindItem_cases hrun
  have hflat := hambient.members _ _ hmember
  have hentered : (Tables.names { tables with values }).Flat := by
    rcases hvalues with hvalues | rfl
    · exact h.enterValue hvalues hflat
    · exact h
  rcases htypes with htypes | rfl
  · exact hentered.enterType htypes hitem hflat
  · exact hentered

theorem bindImport {decl : Decl} (hdecl : decl.FlatNames)
    (hrun : tables.bindImport decl = .ok after) : after.names.Flat := by
  cases decl with
  | importDecl span decl =>
    simp only [Tables.bindImport, Lowered.bind_eq_ok] at hrun
    obtain ⟨specifier, -, hrun⟩ := hrun
    split at hrun
    · cases hrun
      exact h
    · rename_i ambient hambient
      have hflat := h.module specifier ambient hambient
      cases hclause : decl.clause with
      | none =>
        rw [hclause] at hrun
        cases hrun
        exact h
      | some clause =>
        rw [hclause] at hrun
        cases clause with
        | whole name =>
          obtain ⟨values, hvalues, hrun⟩ := Lowered.bind_eq_ok.mp hrun
          cases hrun
          exact h.enterValue hvalues hflat
        | named items =>
          have hitems := hdecl.2 _ hclause
          have hkeeps (state : Tables) (item : ImportItem) (next : Tables) (hitem : item ∈ items)
              (hkept : state.names.Flat)
              (hstep : Tables.bindItem ambient decl.specifier.span state item = .ok next) :
              next.names.Flat := bindItem hkept hflat (hitems item hitem).2 hstep
          exact foldlM_keeps hkeeps h hrun
  | _ =>
    cases hrun
    exact h

end Names.Flat

/-- A model is flat if its sources are. -/
theorem Model.build_flat {program : Program} {preludes : List Program} {model : TypedModel}
    (hprogram : program.Flat) (hpreludes : ∀ prelude ∈ preludes, prelude.Flat)
    (h : Model.build program preludes = .ok model) : Names.Flat model := by
  have hsources : ∀ decl ∈ sources program preludes, decl.FlatNames := by
    intro decl hdecl
    simp only [sources, List.mem_flatMap, List.mem_append, List.mem_singleton] at hdecl
    obtain ⟨source, hsource | rfl, hdecl⟩ := hdecl
    · exact (hpreludes source hsource decl hdecl).1
    · exact (hprogram decl hdecl).1
  have hempty : (Tables.names {}).Flat := by
    constructor
    · intro name symbol hsymbol
      cases hsymbol
    · intro name symbol hsymbol
      cases hsymbol
    · intro specifier ambient hambient
      cases hambient
  obtain ⟨tables, htables, rfl⟩ := Model.build_eq_ok.mp h
  obtain ⟨declared, hdeclared, hbound⟩ := Lowered.bind_eq_ok.mp htables
  have hround : declared.names.Flat := foldlM_keeps
    (fun _ decl _ hdecl hkept hstep => Names.Flat.declare hkept (hsources decl hdecl) hstep) hempty
    hdeclared
  have hkeeps (state : Tables) (decl : Decl) (next : Tables)
      (hdecl : decl ∈ sources program preludes) (hkept : state.names.Flat)
      (hstep : state.bindImport decl = .ok next) : next.names.Flat :=
    hkept.bindImport (hsources decl hdecl) hstep
  exact foldlM_keeps hkeeps hround hbound

end NativeLowering
