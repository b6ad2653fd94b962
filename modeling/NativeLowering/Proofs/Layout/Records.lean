import NativeLowering.Layout.Record
import NativeLowering.Proofs.Layout.Endings

/-!
# Records with two line endings

A record is printed by trimming and joining its parts, and a block of member declarations line by
line. With carriage returns in its line endings it is printed as the text it has without them, with
the carriage returns put in (`FunctionRecord.print_returned`, `ClassRecord.print_returned`). What a
record has on one line has to be flat for that, and its line endings have to be line feeds.
-/

set_option autoImplicit false

namespace NativeLowering

open Text (Flat)

/-! ## Buffers -/

/-- The buffer with a carriage return in each line ending. -/
def Buffer.returned (buffer : Buffer) : Buffer :=
  { buffer with text := Text.returned buffer.text, layout := buffer.layout.returned }

/-- The lines of the first buffer end with line feeds, and the second is the first with a carriage
return before each of them. -/
structure Buffer.Returns (buffer buffer' : Buffer) : Prop where
  newline : buffer.layout.newline = "\n"
  returned : buffer' = buffer.returned

namespace Buffer.Returns

variable {buffer buffer' : Buffer} (h : Buffer.Returns buffer buffer')
include h

theorem append {text : String} (htext : Flat text) (mode : AppendMode) :
    Buffer.Returns (buffer.append text mode) (buffer'.append text mode) := by
  obtain ⟨hnewline, rfl⟩ := h
  refine ⟨hnewline, ?_⟩
  simp only [Buffer.append, Buffer.write, Buffer.returned, Layout.format_flat hnewline htext,
    Text.returned_append]

theorem indent : Buffer.Returns buffer.indent buffer'.indent := by
  obtain ⟨hnewline, rfl⟩ := h
  exact ⟨hnewline, rfl⟩

theorem dedent : Buffer.Returns buffer.dedent buffer'.dedent := by
  obtain ⟨hnewline, rfl⟩ := h
  exact ⟨hnewline, rfl⟩

theorem lines {lines : List String} (hlines : ∀ line ∈ lines, Flat line) :
    Buffer.Returns (lines.foldl (fun buffer line => buffer.append line .line) buffer)
      (lines.foldl (fun buffer line => buffer.append line .line) buffer') := by
  induction lines generalizing buffer buffer' with
  | nil => exact h
  | cons line rest ih =>
    obtain ⟨hline, hrest⟩ := List.forall_mem_cons.mp hlines
    exact ih (h.append hline .line) hrest

theorem group {lines : List String} (hlines : ∀ line ∈ lines, Flat line)
    (visibility : Visibility) :
    Buffer.Returns (ClassRecord.appendGroup buffer visibility lines)
      (ClassRecord.appendGroup buffer' visibility lines) := by
  cases lines with
  | nil => exact h
  | cons line rest =>
    have hlabel : Flat (visibility.spelling ++ ":") := by cases visibility <;> decide
    exact ((h.append hlabel .line).indent.lines hlines).dedent

theorem groups {lines : Visibility → List String}
    (hlines : ∀ visibility, ∀ line ∈ lines visibility, Flat line)
    (visibilities : List Visibility) :
    Buffer.Returns
      (visibilities.foldl (fun block visibility =>
        ClassRecord.appendGroup block visibility (lines visibility)) buffer)
      (visibilities.foldl (fun block visibility =>
        ClassRecord.appendGroup block visibility (lines visibility)) buffer') := by
  induction visibilities generalizing buffer buffer' with
  | nil => exact h
  | cons visibility rest ih => exact ih (h.group (hlines visibility) visibility)

end Buffer.Returns

theorem Buffer.returns_atDepth {layout : Layout} (h : layout.newline = "\n") (depth : Nat) :
    Buffer.Returns (.atDepth layout depth) (.atDepth layout.returned depth) := ⟨h, rfl⟩

/-! ## Functions -/

/-- What stands on one line of the parameter is flat. -/
structure ParamRecord.Flat (param : ParamRecord) : Prop where
  type : Text.Flat param.type
  name : Text.Flat param.name
  default : ∀ value, param.default = some value → Text.Flat value

theorem ParamRecord.Flat.print {param : ParamRecord} (h : param.Flat) (withDefault : Bool) :
    Text.Flat (param.print withDefault) := by
  have hplain : Text.Flat (param.type ++ " " ++ param.name) :=
    (h.type.append (by decide)).append h.name
  unfold ParamRecord.print
  dsimp only
  split
  · rename_i value hvalue
    split
    · exact (hplain.append (by decide)).append (h.default value hvalue)
    · exact hplain
  · exact hplain

/-- What the signature of the function is made of is flat, and its lines end with line feeds. -/
structure FunctionRecord.LineFed (record : FunctionRecord) : Prop where
  returnType : ∀ type, record.returnType = some type → Text.Flat type
  qualifier : ∀ qualifier, record.qualifier = some qualifier → Text.Flat qualifier
  name : Text.Flat record.name
  params : ∀ param ∈ record.params, param.Flat
  newline : record.body.layout.newline = "\n"

namespace FunctionRecord

/-- The record with a carriage return in each line ending. -/
def returned (record : FunctionRecord) : FunctionRecord :=
  { record with hoisted := record.hoisted.returned, body := record.body.returned }

theorem LineFed.signature {record : FunctionRecord} (h : record.LineFed)
    (isQualified withDefaults : Bool) : Flat (record.signature isQualified withDefaults) := by
  have hqualifier : Flat (if isQualified then record.qualifier.getD "" else "") := by
    split
    · cases hown : record.qualifier with
      | none => exact Text.flat_empty
      | some qualifier => exact h.qualifier qualifier hown
    · exact Text.flat_empty
  have hparams : Flat (", ".intercalate (record.params.map (·.print withDefaults))) := by
    refine Text.flat_intercalate (by decide) fun text htext => ?_
    obtain ⟨param, hparam, rfl⟩ := List.mem_map.mp htext
    exact (h.params param hparam).print withDefaults
  unfold FunctionRecord.signature
  dsimp only
  refine Text.Flat.append (Text.Flat.append (Text.Flat.append (Text.Flat.append
    (Text.Flat.append ?_ hqualifier) h.name) (by decide)) hparams) (by decide)
  split
  · rename_i type htype
    exact (h.returnType type htype).append (by decide)
  · exact Text.flat_empty

theorem print_returned {record : FunctionRecord} (h : record.LineFed) :
    record.returned.print = Text.returned record.print := by
  have hlines (texts : List String) :
      [record.signature true false, "\x7b"] ++ texts.map Text.returned ++ ["\x7d"]
        = ([record.signature true false, "\x7b"] ++ texts ++ ["\x7d"]).map Text.returned := by
    have hsignature := (h.signature true false).returned
    have hbraces : Text.returned "\x7b" = "\x7b" ∧ Text.returned "\x7d" = "\x7d" := by decide
    simp only [List.map_append, List.map_cons, List.map_nil, hsignature, hbraces.1, hbraces.2]
  have hparts := Text.filter_returned
    [Text.trimEnd record.hoisted.text, Text.trimEnd record.body.text]
  simp only [List.map_cons, List.map_nil, ← Text.trimEnd_returned] at hparts
  unfold print
  dsimp only
  rw [Text.returned_intercalate, ← hlines, ← Layout.newline_returned h.newline, ← hparts]
  rfl

end FunctionRecord

/-! ## Classes -/

/-- The method with a carriage return in each line ending. -/
def MethodRecord.returned (method : MethodRecord) : MethodRecord :=
  { method with function := method.function.returned }

/-- What stands on one line of the field is flat. -/
structure FieldRecord.Flat (field : FieldRecord) : Prop where
  type : Text.Flat field.type
  name : Text.Flat field.name

/-- What the declarations of the class and its members are made of is flat, and the lines of its
methods end with line feeds. -/
structure ClassRecord.LineFed (record : ClassRecord) : Prop where
  name : Text.Flat record.name
  fields : ∀ field ∈ record.fields, field.Flat
  methods : ∀ method ∈ record.methods, method.function.LineFed

namespace ClassRecord

/-- The record with a carriage return in each line ending. -/
def returned (record : ClassRecord) : ClassRecord :=
  { record with methods := record.methods.map MethodRecord.returned }

theorem methodLines_returned (record : ClassRecord) (visibility : Visibility) :
    record.returned.methodLines visibility = record.methodLines visibility := by
  unfold methodLines returned
  rw [List.filter_map, List.map_map]
  rfl

variable {record : ClassRecord} (h : record.LineFed)
include h

theorem LineFed.fieldLines (visibility : Visibility) :
    ∀ line ∈ record.fieldLines visibility, Flat line := by
  intro line hline
  obtain ⟨field, hfield, rfl⟩ := List.mem_map.mp hline
  have hflat := h.fields field (List.mem_filter.mp hfield).1
  exact ((hflat.type.append (by decide)).append hflat.name).append (by decide)

theorem LineFed.methodLines (visibility : Visibility) :
    ∀ line ∈ record.methodLines visibility, Flat line := by
  intro line hline
  obtain ⟨method, hmethod, rfl⟩ := List.mem_map.mp hline
  have hfed := h.methods method (List.mem_filter.mp hmethod).1
  exact (hfed.signature false true).append (by decide)

variable {layout : Layout} (hnewline : layout.newline = "\n")
include hnewline

theorem block_returned :
    Buffer.Returns (record.block layout) (record.returned.block layout.returned) := by
  have hstart : Buffer.Returns (Buffer.new layout) (Buffer.new layout.returned) :=
    Buffer.returns_atDepth hnewline 0
  have hclass : Flat ("class " ++ record.name) := Text.Flat.append (by decide) h.name
  have hheader := (hstart.append hclass .line).append (by decide : Flat "\x7b") .line
  have hfields := hheader.groups h.fieldLines Visibility.order
  have hmethods := hfields.groups h.methodLines Visibility.order
  unfold block
  dsimp only
  simp only [methodLines_returned]
  exact hmethods.append (by decide : Flat "\x7d;") .inline

theorem print_returned :
    record.returned.print layout.returned = Text.returned (record.print layout) := by
  have hblock : (record.returned.block layout.returned).text
      = Text.returned (record.block layout).text :=
    congrArg Buffer.text (block_returned h hnewline).returned
  have hmethod : ∀ method ∈ record.methods,
      method.returned.function.print = Text.returned method.function.print := by
    intro method hmethod
    exact FunctionRecord.print_returned (h.methods method hmethod)
  have hmethods : record.returned.methods.map (fun method => method.function.print)
      = (record.methods.map fun method => method.function.print).map Text.returned := by
    simp only [returned, List.map_map, Function.comp_def]
    exact List.map_congr_left hmethod
  unfold print
  rw [Text.returned_intercalate, List.map_cons, hblock, hmethods,
    Layout.blankLine_returned hnewline]

end ClassRecord

end NativeLowering
