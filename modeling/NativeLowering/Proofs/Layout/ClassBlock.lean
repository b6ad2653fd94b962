import NativeLowering.Proofs.Layout.Records

/-!
# Class blocks

The block of a class is appended line by line to a buffer, with a label and a deeper indentation for
each visibility that has members. Here it is given as lines (`ClassRecord.blockLines`): the header,
the fields and the methods, each in groups, and the closing brace. The groups are the stable
partition of the members (`Visibility.groups_stable`), so no member is lost, repeated or moved past
another one of its visibility.

A name with a line break would take more than one line, so what the block is made of has to be flat.
-/

set_option autoImplicit false

namespace NativeLowering

open Text (Flat)

/-! ## Groups -/

section Groups

variable {α : Type} (shown : α → Visibility)

/-- Members and the visibility they are shown with, in groups that are not empty. -/
def Visibility.groups (members : List α) : List (Visibility × List α) :=
  (order.map fun visibility =>
    (visibility, members.filter fun member => shown member == visibility)).filter
      fun group => !group.2.isEmpty

/-- The groups hold the members by their visibility: public ones first, then protected ones, then
private ones, and those of one visibility in the order they had. -/
structure StablePartition (members : List α) (groups : List (Visibility × List α)) : Prop where
  /-- The groups come in order, with one group for a visibility at most. -/
  labels : (groups.map Prod.fst).Sublist Visibility.order
  nonempty : ∀ group ∈ groups, group.2 ≠ []
  /-- No member is lost or repeated. -/
  complete : (groups.flatMap Prod.snd).Perm members
  sorted : ∀ group ∈ groups, ∀ member ∈ group.2, shown member = group.1
  stable : ∀ group ∈ groups, group.2.Sublist members

/-- Groups with no members hold nothing. -/
theorem flatMap_nonempty (groups : List (Visibility × List α)) :
    (groups.filter fun group => !group.2.isEmpty).flatMap Prod.snd = groups.flatMap Prod.snd := by
  induction groups with
  | nil => rfl
  | cons group rest ih =>
    obtain ⟨visibility, members⟩ := group
    cases members with
    | nil => simpa using ih
    | cons first others => simp [ih]

/-- Each member is in the group of the one visibility that it has. -/
theorem perm_byVisibility (members : List α) :
    (Visibility.order.flatMap fun visibility =>
      members.filter fun member => shown member == visibility).Perm members := by
  simp only [Visibility.order, List.flatMap_cons, List.flatMap_nil, List.append_nil]
  induction members with
  | nil => exact .nil
  | cons member rest ih =>
    have hshown := ih.cons member
    cases hm : shown member with
    | publicMember => simpa [hm] using hshown
    | protectedMember => simpa [hm] using List.perm_middle.trans hshown
    | privateMember =>
      rw [← List.append_assoc] at hshown
      simpa [hm] using List.perm_middle.trans hshown

theorem Visibility.groups_stable (members : List α) :
    StablePartition shown members (groups shown members) where
  labels := by
    have hlabels : ((groups shown members).map Prod.fst).Sublist
        ((order.map fun visibility =>
          (visibility, members.filter fun member => shown member == visibility)).map Prod.fst) :=
      List.filter_sublist.map Prod.fst
    simpa only [List.map_map, Function.comp_def, List.map_id'] using hlabels
  nonempty := by
    intro group hgroup
    simpa using (List.mem_filter.mp hgroup).2
  complete := by
    unfold groups
    rw [flatMap_nonempty, List.flatMap_map]
    exact perm_byVisibility shown members
  sorted := by
    intro group hgroup member hmember
    obtain ⟨visibility, -, rfl⟩ := List.mem_map.mp (List.mem_filter.mp hgroup).1
    simpa using (List.mem_filter.mp hmember).2
  stable := by
    intro group hgroup
    obtain ⟨visibility, -, rfl⟩ := List.mem_map.mp (List.mem_filter.mp hgroup).1
    exact List.filter_sublist

end Groups

/-- The lines of groups: the label of each, and below it its members, one level deeper. -/
def groupLines {α : Type} (print : α → String) (groups : List (Visibility × List α)) : List Line :=
  groups.flatMap fun group =>
    ⟨0, group.1.spelling ++ ":"⟩ :: group.2.map fun member => ⟨1, print member⟩

theorem groupLines_append {α : Type} (print : α → String)
    (first second : List (Visibility × List α)) :
    groupLines print (first ++ second) = groupLines print first ++ groupLines print second :=
  List.flatMap_append

/-! ## Buffers of lines -/

/-- A buffer that holds lines. -/
def Buffer.ofLines (layout : Layout) (depth : Nat) (lines : List Line) : Buffer :=
  { text := layout.ended lines, depth, layout }

section Lines

variable {layout : Layout}

theorem Layout.format_whole {text : String} (h : Flat text) (hne : text ≠ "") (depth : Nat) :
    layout.format depth .line text = layout.ended [⟨depth, text⟩] := by
  have hlast : text.toList.getLast? ≠ some '\r' := fun hlast =>
    h.returnless (List.mem_of_getLast? hlast)
  rw [layout.format_of_unbroken h.unbroken hlast, indentLine, if_neg hne]
  simp [AppendMode.indents, AppendMode.ends, ended, line]

/-- A text behind lines that are ended is the last line. -/
theorem Layout.ended_append_last (lines : List Line) (text : String) :
    layout.ended lines ++ text = layout.joined (lines ++ [⟨0, text⟩]) := by
  induction lines with
  | nil => simp [ended, joined_singleton]
  | cons line rest ih =>
    have hrest : (rest ++ [(⟨0, text⟩ : Line)]).map layout.line ≠ [] := by simp
    rw [ended, String.append_assoc, ih, List.cons_append]
    simp only [joined, List.map_cons]
    rw [String.intercalate_cons_of_ne_nil hrest]

namespace Buffer

theorem ofLines_append {depth : Nat} {lines : List Line} {text : String} (h : Flat text)
    (hne : text ≠ "") :
    (ofLines layout depth lines).append text .line
      = ofLines layout depth (lines ++ [⟨depth, text⟩]) := by
  simp only [append, write, ofLines, Layout.format_whole h hne, Layout.ended_append]

theorem ofLines_indent {depth : Nat} {lines : List Line} :
    (ofLines layout depth lines).indent = ofLines layout (depth + 1) lines := rfl

theorem ofLines_dedent {depth : Nat} {lines : List Line} :
    (ofLines layout (depth + 1) lines).dedent = ofLines layout depth lines := rfl

theorem ofLines_appendAll {depth : Nat} {texts : List String}
    (h : ∀ text ∈ texts, Flat text ∧ text ≠ "") : ∀ lines : List Line,
    texts.foldl (fun buffer text => buffer.append text .line) (ofLines layout depth lines)
      = ofLines layout depth (lines ++ texts.map fun text => ⟨depth, text⟩) := by
  induction texts with
  | nil =>
    intro lines
    simp
  | cons text rest ih =>
    intro lines
    obtain ⟨htext, hrest⟩ := List.forall_mem_cons.mp h
    rw [List.foldl_cons, ofLines_append htext.1 htext.2, ih hrest]
    simp

end Buffer

end Lines

/-! ## The block -/

namespace ClassRecord

section Groups

variable {layout : Layout} {α : Type} {print : α → String}

theorem appendGroup_lines (visibility : Visibility) {members : List α}
    (h : ∀ member ∈ members, Flat (print member) ∧ print member ≠ "") (lines : List Line) :
    appendGroup (.ofLines layout 0 lines) visibility (members.map print)
      = .ofLines layout 0 (lines ++ groupLines print
          ([(visibility, members)].filter fun group => !group.2.isEmpty)) := by
  cases members with
  | nil => simp [appendGroup, groupLines]
  | cons member rest =>
    have hlabel : Flat (visibility.spelling ++ ":") ∧ visibility.spelling ++ ":" ≠ "" := by
      cases visibility <;> decide
    have hmembers : ∀ text ∈ (member :: rest).map print, Flat text ∧ text ≠ "" :=
      List.forall_mem_map.mpr h
    rw [List.map_cons] at hmembers ⊢
    rw [appendGroup, Buffer.ofLines_append hlabel.1 hlabel.2, Buffer.ofLines_indent,
      Buffer.ofLines_appendAll hmembers, Buffer.ofLines_dedent]
    simp [groupLines, Function.comp_def]

theorem appendGroups_lines {shown : α → Visibility} {members : List α}
    (h : ∀ member ∈ members, Flat (print member) ∧ print member ≠ "") (lines : List Line) :
    Visibility.order.foldl (fun block visibility => appendGroup block visibility
        ((members.filter fun member => shown member == visibility).map print))
        (.ofLines layout 0 lines)
      = .ofLines layout 0 (lines ++ groupLines print (Visibility.groups shown members)) := by
  unfold Visibility.groups
  generalize Visibility.order = visibilities
  induction visibilities generalizing lines with
  | nil => simp [groupLines]
  | cons visibility rest ih =>
    have hgroup : ∀ member ∈ members.filter fun member => shown member == visibility,
        Flat (print member) ∧ print member ≠ "" :=
      fun member hmember => h member (List.mem_filter.mp hmember).1
    rw [List.foldl_cons, appendGroup_lines visibility hgroup, ih, List.append_assoc,
      ← groupLines_append, ← List.filter_append, List.singleton_append, List.map_cons]

end Groups

/-- The lines of the block. -/
def blockLines (record : ClassRecord) : List Line :=
  [⟨0, "class " ++ record.name⟩, ⟨0, "\x7b"⟩]
    ++ groupLines (fun field => field.type ++ " " ++ field.name ++ ";")
      (Visibility.groups FieldRecord.visibility record.fields)
    ++ groupLines (fun method => method.function.signature false true ++ ";")
      (Visibility.groups MethodRecord.visibility record.methods)
    ++ [⟨0, "\x7d;"⟩]

end ClassRecord

/-- What the signature of the function is made of is flat. -/
structure FunctionRecord.Flat (record : FunctionRecord) : Prop where
  returnType : ∀ type, record.returnType = some type → Text.Flat type
  qualifier : ∀ qualifier, record.qualifier = some qualifier → Text.Flat qualifier
  name : Text.Flat record.name
  params : ∀ param ∈ record.params, param.Flat

theorem FunctionRecord.Flat.signature {record : FunctionRecord} (h : record.Flat)
    (isQualified withDefaults : Bool) : Text.Flat (record.signature isQualified withDefaults) := by
  -- The signature does not depend on how the lines of the body end.
  have hfed : LineFed { record with body := .new { lineEnding := .lf } } :=
    ⟨h.returnType, h.qualifier, h.name, h.params, rfl⟩
  exact hfed.signature isQualified withDefaults

/-- What the declarations of the class and its members are made of is flat. -/
structure ClassRecord.Flat (record : ClassRecord) : Prop where
  name : Text.Flat record.name
  fields : ∀ field ∈ record.fields, field.Flat
  methods : ∀ method ∈ record.methods, method.function.Flat

namespace ClassRecord

variable {record : ClassRecord} (h : record.Flat) (layout : Layout)
include h

theorem Flat.fieldLine {field : FieldRecord} (hfield : field ∈ record.fields) :
    Text.Flat (field.type ++ " " ++ field.name ++ ";") ∧
      field.type ++ " " ++ field.name ++ ";" ≠ "" := by
  have hflat := h.fields field hfield
  refine ⟨((hflat.type.append (by decide)).append hflat.name).append (by decide), ?_⟩
  simp

theorem Flat.methodLine {method : MethodRecord} (hmethod : method ∈ record.methods) :
    Text.Flat (method.function.signature false true ++ ";") ∧
      method.function.signature false true ++ ";" ≠ "" := by
  refine ⟨((h.methods method hmethod).signature false true).append (by decide), ?_⟩
  simp

theorem block_lines : (record.block layout).text = layout.joined record.blockLines := by
  have hclass : Text.Flat ("class " ++ record.name) := Text.Flat.append (by decide) h.name
  have hstart : Buffer.new layout = .ofLines layout 0 [] := rfl
  have hclose : layout.format 0 .inline "\x7d;" = "\x7d;" :=
    layout.format_inline (by decide) (by decide)
  unfold block fieldLines methodLines
  dsimp only
  rw [hstart, Buffer.ofLines_append hclass (by simp), Buffer.ofLines_append (by decide) (by decide),
    appendGroups_lines (fun field hfield => h.fieldLine hfield),
    appendGroups_lines (fun method hmethod => h.methodLine hmethod)]
  simp only [Buffer.append, Buffer.write, Buffer.ofLines, hclose]
  rw [blockLines, layout.ended_append_last]
  rfl

/-- **A class is printed** as its block, and behind that the definitions of its methods, in the
order they are declared in. -/
theorem print_lines : record.print layout = layout.blankLine.intercalate
    (layout.joined record.blockLines :: record.methods.map fun method => method.function.print) := by
  rw [print, block_lines h]

end ClassRecord

end NativeLowering
