import NativeLowering.Proofs.Json.Faithful
import NativeLowering.Proofs.Json.Fields
import NativeLowering.Syntax.Decode

/-!
# The formats of a program

Every part of a program has a format: a word, a list, a record, a choice of variants. `Format` names
them all, and `Format.decode` is the decoder that belongs to each. What the records hold and which
payloads the variants have is put down in two tables, `Format.slots` and `Format.variants`.

The decoders agree with the tables. A record is opened, each declared field gives its value or its
default, and the values are put together (`Format.decode_record`); a variant is its payload with
something around it (`Format.decode_tagged`). So nothing about decoding has to be said of one record
after the other.

A node is decoded together with the place it stands at, which its parent has read. That is the span
that the decoders take; only the payloads of nodes look at it.
-/

set_option autoImplicit false

namespace NativeLowering

open Vocabulary (BinaryOp UnaryOp)
open Json (Field Fields Presence openRecord)

/-- What a JSON value is decoded as. -/
inductive Format where
  -- Without parts.
  | text | flag | offset | keyword | visibility | variableKind | binaryOp | unaryOp
  | literal | binding
  -- Around other formats. A node is a record of the node proper and a span.
  | list (item : Format)
  | optional (inner : Format)
  | spanned (node : Format)
  -- Records.
  | span | program | typeReference
  | property | call | new | binary | unary | receiverCall
  | variableDecl | vars | ifElse | loop | block | staged
  | decorator | param | propertyDecl | methodDecl | constructorDecl
  | classDecl | functionDecl | methodSignature | interfaceDecl
  | importItem | importDecl | typeAlias | moduleDecl
  -- Choices of variants.
  | typeNode | expression | statement | classMember | importClause | declaration

/-- A node with the decoder of the node proper. -/
def decodeSpanned {α : Type} (decodeNode : Nat → Span → Json → Option α) : Nat → Json → Option α
  | 0, _ => none
  | n + 1, json => do
    let (span, node) ← openSpanned n json
    decodeNode n span node

namespace Format

/-- What a value of the format is decoded to. -/
def Value : Format → Type
  | .text | .typeAlias => String
  | .flag => Bool
  | .offset => Nat
  | .keyword => Keyword
  | .visibility => Visibility
  | .variableKind => VariableKind
  | .binaryOp => BinaryOp
  | .unaryOp => UnaryOp
  | .literal => Literal
  | .binding => BindingName
  | .list item => List item.Value
  | .optional inner => Option inner.Value
  | .spanned node => node.Value
  | .span => Span
  | .program => Program
  | .typeReference | .typeNode => TypeNode
  | .property | .call | .new | .binary | .unary | .receiverCall | .expression => Expr
  | .variableDecl => VariableDecl
  | .vars | .ifElse | .loop | .staged | .statement => Stmt
  | .block => List Stmt
  | .decorator => Decorator
  | .param => Param
  | .propertyDecl => PropertyDecl
  | .methodDecl => MethodDecl
  | .constructorDecl => ConstructorDecl
  | .classMember => ClassMember
  | .classDecl => ClassDecl
  | .functionDecl => FunctionDecl
  | .methodSignature => MethodSignature
  | .interfaceDecl => InterfaceDecl
  | .importItem => ImportItem
  | .importClause => ImportClause
  | .importDecl => ImportDecl
  | .moduleDecl | .declaration => Decl

/-- The decoder of the format, for a value that may open some levels. The span is the place of the
node that the value is the payload of. -/
def decode : (format : Format) → Nat → Span → Json → Option format.Value
  | .text => fun _ _ => Json.text?
  | .flag => fun _ _ => Json.bool?
  | .offset => fun _ _ => Json.offset?
  | .keyword => fun n _ => Keyword.decode n
  | .visibility => fun n _ => Visibility.decode n
  | .variableKind => fun n _ => VariableKind.decode n
  | .binaryOp => fun n _ => decodeBinaryOp n
  | .unaryOp => fun n _ => decodeUnaryOp n
  | .literal => fun n _ => Literal.decode n
  | .binding => fun n _ => BindingName.decode n
  | .list item => fun n place => Json.list? (fun n => item.decode n place) n
  | .optional inner => fun n place => optional? (fun n => inner.decode n place) n
  | .spanned node => fun n _ => decodeSpanned node.decode n
  | .span => fun n _ => Span.decode n
  | .program => fun n _ => Program.decode n
  | .typeReference => TypeNode.decodeReference
  | .typeNode => TypeNode.decodeNode
  | .property => Expr.decodeProperty
  | .call => Expr.decodeCall
  | .new => Expr.decodeNew
  | .binary => Expr.decodeBinary
  | .unary => Expr.decodeUnary
  | .receiverCall => Expr.decodeReceiverCall
  | .expression => Expr.decodeNode
  | .variableDecl => VariableDecl.decodeNode
  | .vars => Stmt.decodeVars
  | .ifElse => Stmt.decodeIf
  | .loop => Stmt.decodeLoop
  | .block => fun n _ => Stmt.decodeBlock n
  | .staged => Stmt.decodeStaged
  | .statement => Stmt.decodeNode
  | .decorator => Decorator.decodeNode
  | .param => Param.decodeNode
  | .propertyDecl => fun n _ => PropertyDecl.decode n
  | .methodDecl => fun n _ => MethodDecl.decode n
  | .constructorDecl => fun n _ => ConstructorDecl.decode n
  | .classMember => ClassMember.decodeNode
  | .classDecl => fun n _ => ClassDecl.decode n
  | .functionDecl => fun n _ => FunctionDecl.decode n
  | .methodSignature => MethodSignature.decodeNode
  | .interfaceDecl => fun n _ => InterfaceDecl.decode n
  | .importItem => fun n _ => ImportItem.decode n
  | .importClause => fun n _ => ImportClause.decode n
  | .importDecl => fun n _ => ImportDecl.decode n
  | .typeAlias => fun n _ => Decl.decodeTypeAlias n
  | .moduleDecl => Decl.decodeModule
  | .declaration => Decl.decodeNode

/-! ## Tables -/

/-- Nodes, and lists of nodes. -/
abbrev type : Format := .spanned .typeNode
abbrev expr : Format := .spanned .expression
abbrev stmt : Format := .spanned .statement
abbrev exprs : Format := .list expr
abbrev stmts : Format := .list stmt
abbrev decorators : Format := .list (.spanned .decorator)
abbrev params : Format := .list (.spanned .param)

/-- The fields of a record in declared order, with the formats of their values. Only records have
fields. -/
def slots : Format → List (Field × Format)
  | .spanned node => spannedFields.zip [node, .span]
  | .span => Span.fields.zip [.offset, .offset]
  | .program => Program.fields.zip [.list (.spanned .declaration)]
  | .typeReference => TypeNode.referenceFields.zip [.list .text, .list type]
  | .property => Expr.propertyFields.zip [expr, .text]
  | .call => Expr.callFields.zip [expr, .optional (.list type), exprs]
  | .new => Expr.newFields.zip [expr, exprs]
  | .binary => Expr.binaryFields.zip [.binaryOp, expr, expr]
  | .unary => Expr.unaryFields.zip [.unaryOp, expr]
  | .receiverCall => Expr.receiverCallFields.zip [.text, .text, exprs]
  | .variableDecl => VariableDecl.fields.zip [.binding, .optional type, .optional expr]
  | .vars => Stmt.varsFields.zip [.variableKind, .list (.spanned .variableDecl)]
  | .ifElse => Stmt.ifFields.zip [expr, stmt, .optional stmt]
  | .loop => Stmt.loopFields.zip [expr, stmt]
  | .block => Stmt.blockFields.zip [stmts]
  | .staged => Stmt.stagedFields.zip [stmts, stmt]
  | .decorator => Decorator.fields.zip [.text, exprs]
  | .param => Param.fields.zip [.binding, .optional type, .optional expr, .flag]
  | .propertyDecl => PropertyDecl.fields.zip [.visibility, .text, .optional type]
  | .methodDecl => MethodDecl.fields.zip
      [decorators, .visibility, .text, params, .optional type, .optional .block]
  | .constructorDecl => ConstructorDecl.fields.zip [.visibility, params, .optional .block]
  | .classDecl => ClassDecl.fields.zip
      [decorators, .flag, .optional .text, .list (.spanned .classMember)]
  | .functionDecl => FunctionDecl.fields.zip
      [decorators, .flag, .optional .text, .list .text, params, .optional type, .optional .block]
  | .methodSignature => MethodSignature.fields.zip [.text, params, .optional type]
  | .interfaceDecl => InterfaceDecl.fields.zip [.text, .list (.spanned .methodSignature)]
  | .importItem => ImportItem.fields.zip [.text, .optional .text]
  | .importDecl => ImportDecl.fields.zip [expr, .optional .importClause]
  | .typeAlias => Decl.typeAliasFields.zip [.text]
  | .moduleDecl => Decl.moduleFields.zip
      [decorators, .flag, .text, .list (.spanned .declaration)]
  | _ => []

/-- The formats of the payloads that variants have, by the names of the variants. -/
def variants : Format → List (String × Format)
  | .typeNode => [("Reference", .typeReference), ("Keyword", .keyword)]
  | .expression =>
    [("Ident", .text), ("Literal", .literal), ("Property", .property), ("Call", .call),
     ("New", .new), ("Binary", .binary), ("Unary", .unary), ("Paren", expr), ("Comma", exprs),
     ("ReceiverCall", .receiverCall)]
  | .statement =>
    [("Variable", .vars), ("Expr", expr), ("Return", .optional expr), ("If", .ifElse),
     ("While", .loop), ("Block", .block), ("Staged", .staged)]
  | .classMember =>
    [("Property", .propertyDecl), ("Method", .methodDecl), ("Constructor", .constructorDecl)]
  | .importClause => [("Named", .list .importItem), ("Namespace", .text)]
  | .declaration =>
    [("Import", .importDecl), ("Class", .classDecl), ("Function", .functionDecl),
     ("Interface", .interfaceDecl), ("TypeAlias", .typeAlias), ("Module", .moduleDecl)]
  | _ => []

/-- What stands for a field with a default, and for one that can be absent, when it is not
written. -/
def default? : (format : Format) → Option format.Value
  | .list _ => some []
  | .optional _ => some none
  | .flag => some false
  | .visibility => some Visibility.publicMember
  | .span => some ({} : Span)
  | _ => none

/-- The fields that a record declares. -/
def declared (format : Format) : List Field := format.slots.map Prod.fst

/-- Whether a value of the format can be absent. -/
def isOptional : Format → Bool
  | .optional _ => true
  | _ => false

/-- A field that an object may leave out: one with a default, or one that can be absent. -/
def Omissible (slot : Field × Format) : Prop :=
  slot.1.presence = .defaulted ∨ slot.2.isOptional = true

/-- The formats that have fields. No program has a node whose node proper can be absent. -/
def IsRecord : Format → Prop
  | .spanned node => node.isOptional = false
  | format => format.slots ≠ []

/-! ## Fields of a record -/

/-- What a field gives: what is written for it, or else its default if it has one. -/
def found (format : Format) (n : Nat) (place : Span) (presence : Presence) :
    Option Json → Option format.Value
  | some json => format.decode n place json
  | none => if presence = .required then none else format.default?

/-- What a declared field of a record gives. -/
def slotValue (slot : Field × Format) (n : Nat) (place : Span) (fields : Fields) :
    Option slot.2.Value :=
  slot.2.found n place slot.1.presence (fields.lookup slot.1.key)

/-- One value for each of some fields. -/
def Values : List (Field × Format) → Type
  | [] => Unit
  | slot :: rest => slot.2.Value × Values rest

/-- Takes the values of some fields, all of which have to be there. -/
def readAll {α : Type} (n : Nat) (place : Span) (fields : Fields) :
    (slots : List (Field × Format)) → (Values slots → Option α) → Option α
  | [], next => next ()
  | slot :: rest, next =>
    (slotValue slot n place fields).bind fun value =>
      readAll n place fields rest fun values => next (value, values)

/-- Puts the values of a record's fields together, for a node at a place. -/
def make : (format : Format) → Span → Values format.slots → Option format.Value
  | .span, _, (start, stop, ()) => some { start, stop : Span }
  | .program, _, (decls, ()) => some { decls : Program }
  | .typeReference, place, (name, args, ()) => some (TypeNode.reference place name args)
  | .property, place, (object, name, ()) => some (Expr.property place object name)
  | .call, place, (callee, typeArgs, args, ()) => some (Expr.call place callee typeArgs args)
  | .new, place, (target, args, ()) => some (Expr.new place target args)
  | .binary, place, (op, left, right, ()) => some (Expr.binary place op left right)
  | .unary, place, (op, operand, ()) => some (Expr.unary place op operand)
  | .receiverCall, place, (owner, method, args, ()) =>
    some (Expr.receiverCall place owner method args)
  | .variableDecl, place, (name, type, init, ()) =>
    some { span := place, name, type, init : VariableDecl }
  | .vars, place, (kind, decls, ()) => some (Stmt.vars place kind decls)
  | .ifElse, place, (condition, thenBranch, elseBranch, ()) =>
    some (Stmt.ifElse place condition thenBranch elseBranch)
  | .loop, place, (condition, body, ()) => some (Stmt.loop place condition body)
  | .block, _, (body, ()) => some body
  | .staged, place, (before, body, ()) => some (Stmt.staged place before body)
  | .decorator, place, (name, args, ()) => some { span := place, name, args : Decorator }
  | .param, place, (name, type, default, rest, ()) =>
    some { span := place, name, type, default, rest : Param }
  | .propertyDecl, _, (access, name, type, ()) =>
    some { visibility := access, name, type : PropertyDecl }
  | .methodDecl, _, (decorators, access, name, params, returnType, body, ()) =>
    some { decorators, visibility := access, name, params, returnType, body : MethodDecl }
  | .constructorDecl, _, (access, params, body, ()) =>
    some { visibility := access, params, body : ConstructorDecl }
  | .classDecl, _, (decorators, declared, name, members, ()) =>
    some { decorators, declared, name, members : ClassDecl }
  | .functionDecl, _, (decorators, declared, name, typeParams, params, returnType, body, ()) =>
    some { decorators, declared, name, typeParams, params, returnType, body : FunctionDecl }
  | .methodSignature, place, (name, params, returnType, ()) =>
    some { span := place, name, params, returnType : MethodSignature }
  | .interfaceDecl, _, (name, methods, ()) => some { name, methods : InterfaceDecl }
  | .importItem, _, (name, rename, ()) => some { name, rename : ImportItem }
  | .importDecl, _, (specifier, clause, ()) => some { specifier, clause : ImportDecl }
  | .typeAlias, _, (name, ()) => some name
  | .moduleDecl, place, (decorators, declared, name, body, ()) =>
    some (Decl.moduleDecl place decorators declared name body)
  | _, _, _ => none

/-- What the fields of a record come to. The place of a node proper is among the fields of the
node. -/
def assemble (n : Nat) (place : Span) (fields : Fields) :
    (format : Format) → Option format.Value
  | .spanned node =>
    (slotValue (⟨"span", .defaulted⟩, .span) n place fields).bind fun place =>
      slotValue (⟨"node", .required⟩, node) n place fields
  | format => readAll n place fields format.slots (format.make place)

section Decoders

variable {n : Nat} {place : Span} {fields : Fields} {key : String} {format : Format}

/-! What the decoders of the records do with one field. -/

theorem slotValue_required :
    slotValue (⟨key, .required⟩, format) n place fields
      = fields.need key (format.decode n place) := by
  unfold slotValue Fields.need
  cases fields.lookup key <;> rfl

theorem slotValue_defaulted {value : format.Value} (h : format.default? = some value) :
    slotValue (⟨key, .defaulted⟩, format) n place fields
      = fields.orElse key value (format.decode n place) := by
  unfold slotValue Fields.orElse
  cases fields.lookup key with
  | none => exact h
  | some json => rfl

theorem slotValue_optional {presence : Presence} (h : presence ≠ .required) :
    slotValue (⟨key, presence⟩, .optional format) n place fields
      = fields.option key (format.decode n place) := by
  unfold slotValue Fields.option
  cases fields.lookup key with
  | none => exact if_neg h
  | some json => cases json <;> rfl

theorem slotValue_list {item : Format} :
    slotValue (⟨key, .defaulted⟩, .list item) n place fields
      = fields.orElse key [] ((list item).decode n place) :=
  slotValue_defaulted rfl

theorem slotValue_flag :
    slotValue (⟨key, .defaulted⟩, .flag) n place fields = fields.orElse key false Json.bool? :=
  slotValue_defaulted rfl

theorem slotValue_visibility :
    slotValue (⟨key, .defaulted⟩, .visibility) n place fields
      = fields.orElse key .publicMember (Visibility.decode n) :=
  slotValue_defaulted rfl

theorem slotValue_span :
    slotValue (⟨key, .defaulted⟩, .span) n place fields
      = fields.orElse key {} (Span.decode n) :=
  slotValue_defaulted rfl

/-! Nodes, and lists of them, have decoders of their own. -/

theorem decode_type : decode (.spanned .typeNode) n place = TypeNode.decode n := by
  cases n <;> rfl

theorem decode_expr : decode (.spanned .expression) n place = Expr.decode n := by
  cases n <;> rfl

theorem decode_variable : decode (.spanned .variableDecl) n place = VariableDecl.decode n := by
  cases n <;> rfl

theorem decode_stmt : decode (.spanned .statement) n place = Stmt.decode n := by
  cases n <;> rfl

theorem decode_decorator : decode (.spanned .decorator) n place = Decorator.decode n := by
  cases n <;> rfl

theorem decode_param : decode (.spanned .param) n place = Param.decode n := by
  cases n <;> rfl

theorem decode_member : decode (.spanned .classMember) n place = ClassMember.decode n := by
  cases n <;> rfl

theorem decode_signature :
    decode (.spanned .methodSignature) n place = MethodSignature.decode n := by
  cases n <;> rfl

theorem decode_decl : decode (.spanned .declaration) n place = Decl.decode n := by
  cases n <;> rfl

theorem decode_list {item : Format} {decodeItem : Nat → Json → Option item.Value}
    (h : ∀ n, item.decode n place = decodeItem n) :
    decode (.list item) n place = Json.list? decodeItem n := by
  change Json.list? (fun n => item.decode n place) n = _
  rw [funext h]

theorem decode_optional {inner : Format} {decodeInner : Nat → Json → Option inner.Value}
    (h : ∀ n, inner.decode n place = decodeInner n) :
    decode (.optional inner) n place = optional? decodeInner n := by
  change optional? (fun n => inner.decode n place) n = _
  rw [funext h]

theorem decode_types : decode (.list (.spanned .typeNode)) n place = TypeNode.decodeList n :=
  (decode_list fun _ => decode_type).trans <| by
    funext json
    cases n <;> cases json <;> rfl

theorem decode_exprs : decode (.list (.spanned .expression)) n place = Expr.decodeList n :=
  (decode_list fun _ => decode_expr).trans <| by
    funext json
    cases n <;> cases json <;> rfl

theorem decode_stmts : decode (.list (.spanned .statement)) n place = Stmt.decodeList n :=
  (decode_list fun _ => decode_stmt).trans <| by
    funext json
    cases n <;> cases json <;> rfl

theorem decode_decls : decode (.list (.spanned .declaration)) n place = Decl.decodeList n :=
  (decode_list fun _ => decode_decl).trans <| by
    funext json
    cases n <;> cases json <;> rfl

theorem decode_variables :
    decode (.list (.spanned .variableDecl)) n place = Json.list? VariableDecl.decode n :=
  decode_list fun _ => decode_variable

theorem decode_decorators :
    decode (.list (.spanned .decorator)) n place = Json.list? Decorator.decode n :=
  decode_list fun _ => decode_decorator

theorem decode_params :
    decode (.list (.spanned .param)) n place = Json.list? Param.decode n :=
  decode_list fun _ => decode_param

theorem decode_members :
    decode (.list (.spanned .classMember)) n place = Json.list? ClassMember.decode n :=
  decode_list fun _ => decode_member

theorem decode_signatures :
    decode (.list (.spanned .methodSignature)) n place = Json.list? MethodSignature.decode n :=
  decode_list fun _ => decode_signature

end Decoders

/-! ## What the decoders have in common -/

/-- A record is decoded by opening it and putting together what its fields give. -/
theorem decode_record {format : Format} (h : format.slots ≠ []) (n : Nat) (place : Span)
    (json : Json) :
    format.decode (n + 1) place json =
      (openRecord format.declared json).bind fun fields => assemble n place fields format := by
  cases format
  case spanned node =>
    have hopen : decode (.spanned node) (n + 1) place json = (openSpanned n json).bind fun opened =>
      node.decode n opened.1 opened.2 := rfl
    rw [hopen, openSpanned]
    simp only [Option.bind_eq_bind, Option.bind_assoc]
    refine congrArg (Option.bind _) (funext fun fields => ?_)
    -- The decoder looks for the node first, and decodes it when the span is known.
    rw [assemble, slotValue_span]
    dsimp only [slotValue, Fields.need]
    cases fields.lookup "node" <;> cases fields.orElse "span" {} (Span.decode n) <;> rfl
  -- The other records have the same fields on both sides, in the same order.
  all_goals first
    | exact absurd rfl h
    | refine bind_congr fun fields => ?_
      dsimp only [assemble, readAll, slots, Span.fields, Program.fields, TypeNode.referenceFields,
        Expr.propertyFields, Expr.callFields, Expr.newFields, Expr.binaryFields, Expr.unaryFields,
        Expr.receiverCallFields, VariableDecl.fields, Stmt.varsFields, Stmt.ifFields,
        Stmt.loopFields, Stmt.blockFields, Stmt.stagedFields, Decorator.fields, Param.fields,
        PropertyDecl.fields, MethodDecl.fields, ConstructorDecl.fields, ClassDecl.fields,
        FunctionDecl.fields, MethodSignature.fields, InterfaceDecl.fields, ImportItem.fields,
        ImportDecl.fields, Decl.typeAliasFields, Decl.moduleFields,
        List.zip_cons_cons, List.zip_nil_left, make]
      simp only [slotValue_required, slotValue_optional, slotValue_list, slotValue_flag,
        slotValue_visibility, ne_eq, reduceCtorEq, not_false_eq_true, decode_types, decode_exprs,
        decode_stmts, decode_decls, decode_variables, decode_decorators, decode_params,
        decode_members, decode_signatures, decode_type, decode_expr, decode_stmt]
      first | rfl | exact (Option.bind_fun_some _).symm

theorem decode_record_zero {format : Format} (h : format.slots ≠ []) (place : Span) (json : Json) :
    format.decode 0 place json = none := by
  cases format <;> first | rfl | exact absurd rfl h

/-- No record has two fields of one name. -/
theorem keys_distinct (format : Format) :
    format.slots.Pairwise fun slot other => slot.1.key ≠ other.1.key := by
  cases format
  case spanned => simp [slots, spannedFields]
  all_goals first | exact List.Pairwise.nil | decide

theorem IsRecord.slots_ne_nil {format : Format} (h : format.IsRecord) : format.slots ≠ [] := by
  cases format <;> first | exact h | exact List.cons_ne_nil _ _

theorem Omissible.presence_ne_required {format : Format} {slot : Field × Format}
    (h : Omissible slot) (hrecord : format.IsRecord) (hslot : slot ∈ format.slots) :
    slot.1.presence ≠ .required := by
  have hall : format.slots.all fun slot =>
      !slot.2.isOptional || decide (slot.1.presence ≠ .required) := by
    cases format
    case spanned node =>
      have hnode : node.isOptional = false := hrecord
      simp [slots, spannedFields, hnode]
    all_goals rfl
  obtain hdefault | hoptional := h
  · simp [hdefault]
  · simpa [hoptional] using List.all_eq_true.mp hall slot hslot

/-- A variant is decoded by decoding its payload, one level deeper. -/
theorem decode_tagged {format payload : Format} {tag : String}
    (h : (tag, payload) ∈ format.variants) :
    ∃ inject : Span → payload.Value → format.Value, ∀ n place json,
      format.decode (n + 1) place (.object [(some tag, json)])
        = (payload.decode n place json).map (inject place) := by
  -- A payload that needs its place is decoded to the whole node.
  have whole (part : Format) (n : Nat) (place : Span) (json : Json) :
      part.decode n place json = (part.decode n place json).map fun value => value :=
    Option.map_id'.symm
  cases format <;>
    simp only [variants, List.mem_cons, List.not_mem_nil, or_false, Prod.mk.injEq] at h
  case typeNode =>
    obtain ⟨rfl, rfl⟩ | ⟨rfl, rfl⟩ := h
    · exact ⟨fun _ value => value, whole .typeReference⟩
    · exact ⟨TypeNode.keyword, fun _ _ _ => rfl⟩
  case expression =>
    obtain ⟨rfl, rfl⟩ | ⟨rfl, rfl⟩ | ⟨rfl, rfl⟩ | ⟨rfl, rfl⟩ | ⟨rfl, rfl⟩ | ⟨rfl, rfl⟩ |
      ⟨rfl, rfl⟩ | ⟨rfl, rfl⟩ | ⟨rfl, rfl⟩ | ⟨rfl, rfl⟩ := h
    · exact ⟨Expr.ident, fun _ _ _ => rfl⟩
    · exact ⟨Expr.literal, fun _ _ _ => rfl⟩
    · exact ⟨fun _ value => value, whole .property⟩
    · exact ⟨fun _ value => value, whole .call⟩
    · exact ⟨fun _ value => value, whole .new⟩
    · exact ⟨fun _ value => value, whole .binary⟩
    · exact ⟨fun _ value => value, whole .unary⟩
    · exact ⟨Expr.paren, fun n place json => by rw [decode_expr]; rfl⟩
    · exact ⟨Expr.comma, fun n place json => by rw [decode_exprs]; rfl⟩
    · exact ⟨fun _ value => value, whole .receiverCall⟩
  case statement =>
    obtain ⟨rfl, rfl⟩ | ⟨rfl, rfl⟩ | ⟨rfl, rfl⟩ | ⟨rfl, rfl⟩ | ⟨rfl, rfl⟩ | ⟨rfl, rfl⟩ |
      ⟨rfl, rfl⟩ := h
    · exact ⟨fun _ value => value, whole .vars⟩
    · exact ⟨Stmt.expr, fun n place json => by rw [decode_expr]; rfl⟩
    · refine ⟨Stmt.ret, fun n place json => ?_⟩
      have hvalue : decode (.optional expr) n place = optional? Expr.decode n :=
        decode_optional fun _ => decode_expr
      rw [hvalue]
      cases json
      case null => rfl
      all_goals exact (Option.map_map ..).symm
    · exact ⟨fun _ value => value, whole .ifElse⟩
    · exact ⟨fun _ value => value, whole .loop⟩
    · exact ⟨Stmt.block, fun _ _ _ => rfl⟩
    · exact ⟨fun _ value => value, whole .staged⟩
  case classMember =>
    obtain ⟨rfl, rfl⟩ | ⟨rfl, rfl⟩ | ⟨rfl, rfl⟩ := h
    · exact ⟨ClassMember.property, fun _ _ _ => rfl⟩
    · exact ⟨ClassMember.method, fun _ _ _ => rfl⟩
    · exact ⟨ClassMember.constructor, fun _ _ _ => rfl⟩
  case importClause =>
    obtain ⟨rfl, rfl⟩ | ⟨rfl, rfl⟩ := h
    · exact ⟨fun _ => ImportClause.named, fun _ _ _ => rfl⟩
    · exact ⟨fun _ => ImportClause.whole, fun _ _ _ => rfl⟩
  case declaration =>
    obtain ⟨rfl, rfl⟩ | ⟨rfl, rfl⟩ | ⟨rfl, rfl⟩ | ⟨rfl, rfl⟩ | ⟨rfl, rfl⟩ | ⟨rfl, rfl⟩ := h
    · exact ⟨Decl.importDecl, fun _ _ _ => rfl⟩
    · exact ⟨Decl.classDecl, fun _ _ _ => rfl⟩
    · exact ⟨Decl.functionDecl, fun _ _ _ => rfl⟩
    · exact ⟨Decl.interfaceDecl, fun _ _ _ => rfl⟩
    · exact ⟨Decl.typeAlias, fun _ _ _ => rfl⟩
    · exact ⟨fun _ value => value, whole .moduleDecl⟩

theorem decode_tagged_zero {format payload : Format} {tag : String}
    (h : (tag, payload) ∈ format.variants) (place : Span) (json : Json) :
    format.decode 0 place (.object [(some tag, json)]) = none := by
  cases format <;> first | rfl | cases h

end Format

end NativeLowering
