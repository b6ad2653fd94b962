import NativeLowering.Proofs.Layout.Format

/-!
# Lines of written source

A statement is written into a buffer of its own, trimmed, joined with what goes before it, taken
apart at the line breaks and indented once more, and so on for every statement around it. A `Line`
keeps the depth apart from the text instead, and the lemmas here say what each of these operations
is in terms of lines: trimming cuts off the last line ending (`Layout.trim_ended`), joining parts
appends their lines (`Layout.intercalate_joined`), and laying out again adds to the depths
(`Layout.format_joined`).

This needs that the texts begin and end with something visible and hold no line break
(`Text.FillsLine`). For a blank at the edge would be trimmed at some depth, and a line break would
end the line.
-/

set_option autoImplicit false

namespace NativeLowering

/-! ## Texts on one line -/

namespace Text

/-- The text keeps to one line. -/
def Unbroken (text : String) : Prop := '\n' ∉ text.toList

/-- The text begins with something visible. -/
def Opens (text : String) : Prop := ∃ c ∈ text.toList.head?, isBlank c = false

/-- The text ends with something visible. -/
def Closes (text : String) : Prop := ∃ c ∈ text.toList.getLast?, isBlank c = false

instance (text : String) : Decidable (Unbroken text) :=
  inferInstanceAs (Decidable ('\n' ∉ text.toList))

instance (text : String) : Decidable (Opens text) :=
  decidable_of_iff (text.toList.head?.any fun c => !isBlank c) (by simp [Opens, Option.any_eq_true])

instance (text : String) : Decidable (Closes text) :=
  decidable_of_iff (text.toList.getLast?.any fun c => !isBlank c)
    (by simp [Closes, Option.any_eq_true])

/-- The text can stand at the start of a line. -/
structure StartsLine (text : String) : Prop where
  opens : Opens text
  unbroken : Unbroken text

/-- The text can be a whole line. -/
structure FillsLine (text : String) : Prop extends StartsLine text where
  closes : Closes text

instance (text : String) : Decidable (StartsLine text) :=
  decidable_of_iff (Opens text ∧ Unbroken text) ⟨fun ⟨h, h'⟩ => ⟨h, h'⟩, fun ⟨h, h'⟩ => ⟨h, h'⟩⟩

instance (text : String) : Decidable (FillsLine text) :=
  decidable_of_iff (StartsLine text ∧ Closes text) ⟨fun ⟨h, h'⟩ => ⟨h, h'⟩, fun ⟨h, h'⟩ => ⟨h, h'⟩⟩

/-- A word, which has no blanks at all, can start a line. -/
theorem startsLine_of_word {text : String} (hne : text ≠ "")
    (h : text.toList.any isBlank = false) : StartsLine text := by
  have hvisible (c : Char) (hc : c ∈ text.toList) : isBlank c = false := by
    simpa using List.any_eq_false.mp h c hc
  constructor
  · cases hcs : text.toList with
    | nil => exact absurd (String.toList_eq_nil_iff.mp hcs) hne
    | cons c rest => exact ⟨c, by simp [hcs], hvisible c (by simp [hcs])⟩
  · intro hfeed
    exact absurd (hvisible '\n' hfeed) (by decide)

@[simp] theorem unbroken_append {first second : String} :
    Unbroken (first ++ second) ↔ Unbroken first ∧ Unbroken second := by
  simp [Unbroken, not_or]

theorem Opens.append {first : String} (h : Opens first) (second : String) :
    Opens (first ++ second) := by
  obtain ⟨c, hc, hblank⟩ := h
  refine ⟨c, ?_, hblank⟩
  rw [String.toList_append, List.head?_append, hc]
  rfl

theorem Closes.append {second : String} (h : Closes second) (first : String) :
    Closes (first ++ second) := by
  obtain ⟨c, hc, hblank⟩ := h
  refine ⟨c, ?_, hblank⟩
  rw [String.toList_append, List.getLast?_append, hc]
  rfl

theorem Opens.ne_empty {text : String} (h : Opens text) : text ≠ "" := by
  rintro rfl
  obtain ⟨c, hc, -⟩ := h
  cases hc

theorem StartsLine.append {first second : String} (h : StartsLine first)
    (hsecond : Unbroken second) : StartsLine (first ++ second) :=
  ⟨h.opens.append second, unbroken_append.mpr ⟨h.unbroken, hsecond⟩⟩

theorem StartsLine.close {first second : String} (h : StartsLine first)
    (hsecond : Unbroken second) (hcloses : Closes second) : FillsLine (first ++ second) :=
  ⟨h.append hsecond, hcloses.append first⟩

theorem Closes.getLast?_ne {text : String} (h : Closes text) :
    text.toList.getLast? ≠ some '\r' := by
  obtain ⟨c, hc, hblank⟩ := h
  intro hlast
  rw [hlast] at hc
  cases hc
  exact absurd hblank (by decide)

/-! Trimming -/

theorem dropBlanks_of_opens {text : String} (h : Opens text) :
    dropBlanks text.toList = text.toList := by
  obtain ⟨c, hc, hblank⟩ := h
  cases hcs : text.toList with
  | nil =>
    rw [hcs] at hc
    cases hc
  | cons d rest =>
    rw [hcs] at hc
    cases hc
    simp [dropBlanks, hblank]

theorem dropEndBlanks_append {text blanks : String} (h : Closes text)
    (hblanks : ∀ c ∈ blanks.toList, isBlank c = true) :
    dropEndBlanks (text ++ blanks).toList = text.toList := by
  obtain ⟨c, hc, hblank⟩ := h
  obtain ⟨front, hfront⟩ := List.getLast?_eq_some_iff.mp hc
  have hdrop : (text ++ blanks).toList.reverse.dropWhile isBlank = text.toList.reverse := by
    rw [String.toList_append, List.reverse_append,
      List.dropWhile_append_of_pos (by simpa using hblanks), hfront, List.reverse_append]
    simp [hblank]
  rw [dropEndBlanks, dropBlanks, hdrop, List.reverse_reverse]

theorem trimEnd_append {text blanks : String} (h : Closes text)
    (hblanks : ∀ c ∈ blanks.toList, isBlank c = true) : trimEnd (text ++ blanks) = text := by
  rw [trimEnd, dropEndBlanks_append h hblanks, String.ofList_toList]

theorem trim_append {text blanks : String} (hopens : Opens text) (hcloses : Closes text)
    (hblanks : ∀ c ∈ blanks.toList, isBlank c = true) : trim (text ++ blanks) = text := by
  rw [trim, dropBlanks_of_opens (hopens.append blanks), dropEndBlanks_append hcloses hblanks,
    String.ofList_toList]

/-! Line breaks -/

theorem dropReturn_of_getLast? {line : List Char} (h : line.getLast? ≠ some '\r') :
    dropReturn line = line := by
  rw [dropReturn, if_neg h]

theorem charLines_of_unbroken {text : String} (h : Unbroken text) :
    charLines text.toList = [dropReturn text.toList] := by
  rw [charLines, List.splitOn_eq_singleton h]
  rfl

end Text

open Text (Unbroken Opens Closes StartsLine FillsLine)

/-! ## Pieces of a line -/

namespace Layout

variable (layout : Layout)

theorem inline_of_unbroken {text : String} (h : Unbroken text) :
    layout.inline text = String.ofList (Text.dropReturn text.toList) := by
  simp [inline, format, Text.lines, Text.charLines_of_unbroken h, AppendMode.indents,
    AppendMode.ends]

theorem unbroken_inline {text : String} (h : Unbroken text) : Unbroken (layout.inline text) := by
  rw [layout.inline_of_unbroken h, Unbroken, String.toList_ofList]
  intro hfeed
  refine h ?_
  unfold Text.dropReturn at hfeed
  split at hfeed
  · exact List.dropLast_subset _ hfeed
  · exact hfeed

theorem startsLine_inline {text : String} (h : StartsLine text) :
    StartsLine (layout.inline text) := by
  refine ⟨?_, layout.unbroken_inline h.unbroken⟩
  obtain ⟨c, hc, hblank⟩ := h.opens
  refine ⟨c, ?_, hblank⟩
  rw [layout.inline_of_unbroken h.unbroken, String.toList_ofList]
  cases hcs : text.toList with
  | nil =>
    rw [hcs] at hc
    cases hc
  | cons d rest =>
    rw [hcs] at hc
    cases hc
    have hreturn : c ≠ '\r' := by
      rintro rfl
      exact absurd hblank (by decide)
    rw [Text.dropReturn_cons hreturn]
    rfl

/-- A text that keeps to one line, and does not end with half a line break, is laid out as it is. -/
theorem format_of_unbroken {text : String} (h : Unbroken text)
    (hlast : text.toList.getLast? ≠ some '\r') (depth : Nat) (mode : AppendMode) :
    layout.format depth mode text =
      (if mode.indents then layout.indentLine depth text else text) ++
        if mode.ends then layout.newline else "" := by
  have hlines : Text.lines text = [text] := by
    rw [Text.lines, Text.charLines_of_unbroken h, Text.dropReturn_of_getLast? hlast]
    simp
  unfold format
  rw [hlines]
  cases mode.indents <;> simp

theorem indentLine_zero (line : String) : layout.indentLine 0 line = line := by
  simp [indentLine, indentation]

end Layout

/-! ## Lines -/

/-- A line of written source, without its indentation. -/
structure Line where
  depth : Nat
  text : String
  deriving DecidableEq

/-- The line that much deeper. -/
def Line.shift (depth : Nat) (line : Line) : Line := { line with depth := depth + line.depth }

/-- The lines can be written, and the first of them stands at the depth. -/
structure SetAt (depth : Nat) (lines : List Line) : Prop where
  fills : ∀ line ∈ lines, FillsLine line.text
  first : ∀ line ∈ lines.head?, line.depth = depth

namespace SetAt

variable {depth : Nat}

theorem nil : SetAt depth [] := ⟨nofun, nofun⟩

theorem cons {line : Line} {rest : List Line} (h : FillsLine line.text) (hline : line.depth = depth)
    (hrest : ∀ other ∈ rest, FillsLine other.text) : SetAt depth (line :: rest) := by
  refine ⟨List.forall_mem_cons.mpr ⟨h, hrest⟩, ?_⟩
  intro other hother
  cases hother
  exact hline

theorem single {text : String} (h : FillsLine text) : SetAt depth [⟨depth, text⟩] :=
  cons h rfl (List.forall_mem_nil _)

theorem append {first second : List Line} (h : SetAt depth first) (h' : SetAt depth second) :
    SetAt depth (first ++ second) := by
  refine ⟨List.forall_mem_append.mpr ⟨h.fills, h'.fills⟩, ?_⟩
  cases first with
  | nil => exact h'.first
  | cons line rest => exact h.first

end SetAt

namespace Layout

variable (layout : Layout)

/-- A line as it is written. -/
def line (line : Line) : String := layout.indentation line.depth ++ line.text

/-- Lines with line endings between them. -/
def joined (lines : List Line) : String := layout.newline.intercalate (lines.map layout.line)

/-- Lines with a line ending after each. -/
def ended : List Line → String
  | [] => ""
  | line :: rest => layout.line line ++ layout.newline ++ ended rest

theorem ended_append (first second : List Line) :
    layout.ended (first ++ second) = layout.ended first ++ layout.ended second := by
  induction first with
  | nil => simp [ended]
  | cons line rest ih => simp [ended, ih, String.append_assoc]

theorem ended_eq_joined {lines : List Line} (hne : lines ≠ []) :
    layout.ended lines = layout.joined lines ++ layout.newline := by
  induction lines with
  | nil => exact absurd rfl hne
  | cons line rest ih =>
    cases rest with
    | nil => simp [ended, joined]
    | cons other others =>
      rw [ended, ih (List.cons_ne_nil _ _)]
      simp only [joined, List.map_cons, String.intercalate_cons_cons, String.append_assoc]

theorem blank_newline : ∀ c ∈ layout.newline.toList, Text.isBlank c = true := by
  unfold newline LineEnding.text
  cases layout.lineEnding <;> exact List.all_eq_true.mp (by decide)

theorem line_zero (text : String) : layout.line ⟨0, text⟩ = text := by
  simp [line, indentation]

theorem joined_singleton (text : String) : layout.joined [⟨0, text⟩] = text := by
  simp [joined, line_zero]

theorem indentation_add (depth more : Nat) :
    layout.indentation (depth + more) = layout.indentation depth ++ layout.indentation more := by
  rw [indentation, Nat.mul_add, List.replicate_add, String.ofList_append]
  rfl

theorem line_shift (depth : Nat) (line : Line) :
    layout.line (line.shift depth) = layout.indentation depth ++ layout.line line := by
  simp [Layout.line, Line.shift, layout.indentation_add, String.append_assoc]

/-! ### Laying out pieces -/

theorem format_line {text : String} (h : FillsLine text) (depth : Nat) :
    layout.format depth .line text = layout.ended [⟨depth, text⟩] := by
  have hlast := h.closes.getLast?_ne
  rw [layout.format_of_unbroken h.unbroken hlast, indentLine, if_neg h.opens.ne_empty]
  simp [AppendMode.indents, AppendMode.ends, ended, line]

theorem format_inline {text : String} (h : Unbroken text)
    (hlast : text.toList.getLast? ≠ some '\r') : layout.format 0 .inline text = text := by
  rw [layout.format_of_unbroken h hlast]
  simp [AppendMode.indents, AppendMode.ends]

/-- A text that is begun, continued and finished at the left margin is a line. -/
theorem ended_pieces {first second third : String} (hfirst : Unbroken first)
    (hlast : first.toList.getLast? ≠ some '\r') (hthird : Unbroken third)
    (hlast' : third.toList.getLast? ≠ some '\r') (mode : AppendMode) (hmode : mode.ends = false) :
    layout.format 0 mode first ++ second ++ layout.format 0 .finish third
      = layout.ended [⟨0, first ++ second ++ third⟩] := by
  rw [layout.format_of_unbroken hfirst hlast, layout.format_of_unbroken hthird hlast', hmode,
    indentLine_zero, ended, line_zero, ite_self]
  simp [AppendMode.indents, AppendMode.ends, ended, String.append_assoc]

/-! ### Edges -/

section Edges

variable {lines : List Line}

theorem closes_joined (h : ∀ line ∈ lines, FillsLine line.text) (hne : lines ≠ []) :
    Closes (layout.joined lines) := by
  obtain ⟨front, last, rfl⟩ : ∃ front last, lines = front ++ [last] :=
    ⟨_, _, (List.dropLast_append_getLast hne).symm⟩
  have hlast : Closes (layout.line last) := (h last (by simp)).closes.append _
  rw [joined, List.map_append]
  by_cases hfront : front.map layout.line = []
  · rw [hfront]
    simpa using hlast
  · rw [String.intercalate_append_of_ne_nil hfront (by simp)]
    exact Closes.append (by simpa using hlast) _

theorem opens_joined (h : SetAt 0 lines) (hne : lines ≠ []) : Opens (layout.joined lines) := by
  cases lines with
  | nil => exact absurd rfl hne
  | cons line rest =>
    have hdepth : line.depth = 0 := h.first line rfl
    have hopens : Opens (layout.line line) := by
      obtain ⟨depth, text⟩ := line
      cases hdepth
      rw [line_zero]
      exact (h.fills ⟨0, text⟩ (by simp)).opens
    cases rest with
    | nil => simpa [joined] using hopens
    | cons other others =>
      rw [joined, List.map_cons, List.map_cons, String.intercalate_cons_cons, String.append_assoc]
      exact hopens.append _

theorem joined_eq_empty (h : ∀ line ∈ lines, FillsLine line.text) :
    layout.joined lines = "" ↔ lines = [] := by
  constructor
  · intro hempty
    by_contra hne
    obtain ⟨c, hc, -⟩ := layout.closes_joined h hne
    rw [hempty] at hc
    cases hc
  · rintro rfl
    rfl

/-- Trimming keeps lines as they are, but for the last line ending. -/
theorem trim_joined (h : SetAt 0 lines) :
    Text.trim (layout.joined lines) = layout.joined lines := by
  by_cases hne : lines = []
  · rw [hne]
    rfl
  · have hblanks : ∀ c ∈ "".toList, Text.isBlank c = true := nofun
    have htrim := Text.trim_append (layout.opens_joined h hne) (layout.closes_joined h.fills hne)
      hblanks
    rwa [String.append_empty] at htrim

theorem trim_ended (h : SetAt 0 lines) :
    Text.trim (layout.ended lines) = layout.joined lines := by
  by_cases hne : lines = []
  · rw [hne]
    rfl
  · rw [layout.ended_eq_joined hne]
    exact Text.trim_append (layout.opens_joined h hne) (layout.closes_joined h.fills hne)
      layout.blank_newline

theorem trimEnd_ended (h : ∀ line ∈ lines, FillsLine line.text) :
    Text.trimEnd (layout.ended lines) = layout.joined lines := by
  by_cases hne : lines = []
  · rw [hne]
    rfl
  · rw [layout.ended_eq_joined hne]
    exact Text.trimEnd_append (layout.closes_joined h hne) layout.blank_newline

end Edges

/-! ### Taking lines apart -/

/-- Splitting undoes joining. -/
theorem charLines_intercalate {lines : List (List Char)} (hne : lines ≠ [])
    (h : ∀ line ∈ lines, '\n' ∉ line ∧ line.getLast? ≠ some '\r') :
    Text.charLines (layout.newline.toList.intercalate lines) = lines := by
  -- A line ending is a line feed, with or without a carriage return that belongs to it.
  obtain ⟨cr, hnewline, hfeed, hdrop⟩ : ∃ cr, layout.newline.toList = cr ++ ['\n'] ∧ '\n' ∉ cr ∧
      ∀ line : List Char, line.getLast? ≠ some '\r' → Text.dropReturn (line ++ cr) = line := by
    unfold newline LineEnding.text
    cases layout.lineEnding with
    | platform | lf =>
      refine ⟨[], rfl, by simp, fun line hline => ?_⟩
      rw [List.append_nil, Text.dropReturn_of_getLast? hline]
    | crlf =>
      refine ⟨['\r'], rfl, by decide, fun line _ => ?_⟩
      simp [Text.dropReturn]
  induction lines with
  | nil => exact absurd rfl hne
  | cons line rest ih =>
    obtain ⟨hline, hreturn⟩ := h line (by simp)
    cases rest with
    | nil =>
      rw [List.intercalate_singleton, Text.charLines, List.splitOn_eq_singleton hline]
      simp [Text.dropReturn_of_getLast? hreturn]
    | cons other others =>
      have hrest := ih (List.cons_ne_nil _ _) fun l hl => h l (by simp [hl])
      rw [List.intercalate_cons_cons, hnewline]
      rw [hnewline] at hrest
      have hsplit (others : List Char) :
          ((line ++ cr) ++ '\n' :: others).splitOn '\n' = (line ++ cr) :: others.splitOn '\n' :=
        List.splitOn_append_cons_self_of_not_mem (by simp [hline, hfeed]) others
      rw [Text.charLines, List.append_assoc, List.append_assoc, List.cons_append, List.nil_append,
        ← List.append_assoc, hsplit, List.map_cons, hdrop line hreturn]
      exact congrArg (line :: ·) hrest

theorem lines_joined {lines : List Line} (h : ∀ line ∈ lines, FillsLine line.text)
    (hne : lines ≠ []) : Text.lines (layout.joined lines) = lines.map layout.line := by
  have hmap : (layout.joined lines).toList =
      layout.newline.toList.intercalate (lines.map fun line => (layout.line line).toList) := by
    rw [joined, String.toList_intercalate, List.map_map]
    rfl
  rw [Text.lines, hmap, layout.charLines_intercalate (by simpa using hne)]
  · simp
  · simp only [List.mem_map, forall_exists_index, and_imp, forall_apply_eq_imp_iff₂]
    intro line hline
    have hfills := h line hline
    refine ⟨?_, (hfills.closes.append _).getLast?_ne⟩
    refine Text.unbroken_append.mpr ⟨?_, hfills.unbroken⟩
    rw [Unbroken, indentation, String.toList_ofList]
    intro hfeed
    exact absurd (List.eq_of_mem_replicate hfeed) (by decide)

/-- Laying lines out at a depth puts all of them that much deeper. -/
theorem format_joined {lines : List Line} (h : ∀ line ∈ lines, FillsLine line.text)
    (hne : lines ≠ []) (depth : Nat) :
    layout.format depth .line (layout.joined lines)
      = layout.ended (lines.map (Line.shift depth)) := by
  have hindent (line : Line) (hline : line ∈ lines) :
      layout.indentLine depth (layout.line line) = layout.line (line.shift depth) := by
    have hvisible : layout.line line ≠ "" := by
      intro hempty
      have hcloses : Closes (layout.line line) := (h line hline).closes.append _
      obtain ⟨c, hc, -⟩ := hcloses
      rw [hempty] at hc
      cases hc
    rw [indentLine, if_neg hvisible, line_shift]
  have hlines : (lines.map layout.line).map (layout.indentLine depth)
      = (lines.map (Line.shift depth)).map layout.line := by
    rw [List.map_map, List.map_map]
    exact List.map_congr_left hindent
  rw [layout.ended_eq_joined (by simpa using hne), format, layout.lines_joined h hne]
  exact congrArg (layout.newline.intercalate · ++ layout.newline) hlines

/-! ### Joining parts -/

section Parts

variable {parts : List (List Line)} (h : ∀ part ∈ parts, ∀ line ∈ part, FillsLine line.text)
include h

/-- Whether there is anything to join can be seen on the texts and on the lines. -/
theorem filter_joined_eq_nil :
    (parts.map layout.joined).filter (· ≠ "") = [] ↔ parts.flatten = [] := by
  rw [List.filter_eq_nil_iff, List.flatten_eq_nil_iff, List.forall_mem_map]
  refine forall₂_congr fun part hpart => ?_
  simpa using layout.joined_eq_empty (h part hpart)

/-- Parts with nothing in them leave no trace when parts are joined. -/
theorem intercalate_joined :
    layout.newline.intercalate ((parts.map layout.joined).filter (· ≠ ""))
      = layout.joined parts.flatten := by
  induction parts with
  | nil => rfl
  | cons part rest ih =>
    have hpart := layout.joined_eq_empty (h part (by simp))
    have hrest : ∀ other ∈ rest, ∀ line ∈ other, FillsLine line.text :=
      fun other hother => h other (by simp [hother])
    have hfilter := layout.filter_joined_eq_nil hrest
    have ih := ih hrest
    by_cases hempty : part = []
    · rw [List.map_cons, List.filter_cons_of_neg (by simpa using hpart.mpr hempty), ih, hempty]
      rfl
    · rw [List.map_cons, List.filter_cons_of_pos (by simpa using mt hpart.mp hempty)]
      by_cases hnone : rest.flatten = []
      · rw [hfilter.mpr hnone, String.intercalate_singleton, List.flatten_cons, hnone,
          List.append_nil]
      · rw [String.intercalate_cons_of_ne_nil (mt hfilter.mp hnone), ih, List.flatten_cons, joined,
          joined, joined, List.map_append,
          String.intercalate_append_of_ne_nil (by simpa using hempty) (by simpa using hnone)]

/-- A text in front of parts is a line above theirs, whatever it holds. -/
theorem intercalate_cons_joined (text : String) (hne : parts.flatten ≠ []) :
    layout.newline.intercalate (text :: (parts.map layout.joined).filter (· ≠ ""))
      = layout.joined (⟨0, text⟩ :: parts.flatten) := by
  have hparts := mt (layout.filter_joined_eq_nil h).mp hne
  rw [joined, List.map_cons, line_zero, String.intercalate_cons_of_ne_nil hparts,
    String.intercalate_cons_of_ne_nil (by simpa using hne), layout.intercalate_joined h, joined]

/-- A statement is put on lines at a depth from the lines of its parts. -/
theorem format_joinParts {texts : List String}
    (htrim : texts.map Text.trim = parts.map layout.joined) (depth : Nat) :
    (match Emit.joinParts layout texts with
      | none => ""
      | some text => layout.format depth .line text)
      = layout.ended (parts.flatten.map (Line.shift depth)) := by
  have hjoined := layout.intercalate_joined h
  have hfilter := layout.filter_joined_eq_nil h
  unfold Emit.joinParts
  rw [htrim]
  cases hparts : (parts.map layout.joined).filter (· ≠ "") with
  | nil =>
    rw [hfilter.mp hparts]
    rfl
  | cons text rest =>
    rw [hparts] at hjoined
    have hne : parts.flatten ≠ [] := by
      intro hempty
      rw [hfilter.mpr hempty] at hparts
      cases hparts
    have hfills : ∀ line ∈ parts.flatten, FillsLine line.text := by
      intro line hline
      obtain ⟨part, hpart, hline⟩ := List.mem_flatten.mp hline
      exact h part hpart line hline
    dsimp only
    rw [hjoined, layout.format_joined hfills hne]

end Parts

end Layout

end NativeLowering
