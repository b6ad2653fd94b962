import NativeLowering.Emit.Session
import Mathlib

/-!
# What layout keeps of a text

Laying out a text splits it at line breaks, indents the lines and joins them again; putting a
statement together trims its parts. None of this touches a character that is not blank. So the
number of such characters that a test picks can be read off the parts of a text, however the parts
are laid out (`Layout.count_format`, `Emit.count_joinParts`).

A word without line breaks at the start of a text stays in front when the rest is laid out
(`Layout.inline_append`).
-/

set_option autoImplicit false

namespace NativeLowering

/-! ## Pieces of a line -/

namespace Text

theorem dropReturn_cons {c : Char} (h : c ≠ '\r') (line : List Char) :
    dropReturn (c :: line) = c :: dropReturn line := by
  cases line with
  | nil => simp [dropReturn, h]
  | cons d rest =>
    unfold dropReturn
    rw [List.getLast?_cons_cons]
    split <;> rfl

theorem charLines_cons {c : Char} (hfeed : c ≠ '\n') (hreturn : c ≠ '\r') (cs : List Char) :
    charLines (c :: cs) = (charLines cs).modifyHead (List.cons c) := by
  have hc : (c == '\n') = false := by simpa using hfeed
  unfold charLines
  rw [List.splitOn_cons_eq_if_modifyHead, hc]
  cases hs : cs.splitOn '\n' with
  | nil => exact absurd hs (List.splitOn_ne_nil _ _)
  | cons line rest => simp [dropReturn_cons hreturn]

theorem charLines_append {word : List Char} (h : ∀ c ∈ word, c ≠ '\n' ∧ c ≠ '\r')
    (cs : List Char) : charLines (word ++ cs) = (charLines cs).modifyHead (word ++ ·) := by
  induction word with
  | nil =>
    rw [List.nil_append]
    cases charLines cs <;> rfl
  | cons c rest ih =>
    obtain ⟨hfeed, hreturn⟩ := h c (by simp)
    rw [List.cons_append, charLines_cons hfeed hreturn, ih fun d hd => h d (by simp [hd])]
    cases charLines cs <;> rfl

end Text

/-- A text laid out as a piece of a line. -/
def Layout.inline (layout : Layout) (text : String) : String := layout.format 0 .inline text

/-- A word without line breaks in front of a piece is a piece by itself. -/
theorem Layout.inline_append (layout : Layout) {word : String}
    (h : ∀ c ∈ word.toList, c ≠ '\n' ∧ c ≠ '\r') (text : String) :
    layout.inline (word ++ text) = word ++ layout.inline text := by
  unfold Layout.inline Layout.format Text.lines
  rw [String.toList_append, Text.charLines_append h]
  cases hl : Text.charLines text.toList with
  | nil =>
    simp [Text.charLines] at hl
  | cons line rest =>
    simp [AppendMode.indents, AppendMode.ends, String.intercalate_cons_append]

/-! ## Counting characters -/

namespace Text

/-- How many characters of a text a test picks. -/
def count (p : Char → Bool) (text : String) : Nat := text.toList.countP p

/-- A test that picks no blanks. -/
def Solid (p : Char → Bool) : Prop := ∀ c, p c = true → isBlank c = false

section Counting

variable {p : Char → Bool}

@[simp] theorem count_empty : count p "" = 0 := rfl

@[simp] theorem count_append (first second : String) :
    count p (first ++ second) = count p first + count p second := by
  simp [count]

theorem count_ofList (cs : List Char) : count p (String.ofList cs) = cs.countP p := by
  simp [count]

theorem countP_blank (hp : Solid p) {cs : List Char} (h : ∀ c ∈ cs, isBlank c = true) :
    cs.countP p = 0 := by
  rw [List.countP_eq_zero]
  intro c hc hpick
  have hblank := h c hc
  rw [hp c hpick] at hblank
  cases hblank

theorem count_intercalate {separator : String} (h : count p separator = 0) (texts : List String) :
    count p (separator.intercalate texts) = (texts.map (count p)).sum := by
  induction texts with
  | nil => rfl
  | cons first rest ih =>
    cases rest with
    | nil => simp
    | cons second others =>
      rw [String.intercalate_cons_cons, count_append, count_append, ih, h]
      simp

theorem countP_intercalate {separator : List Char} (h : separator.countP p = 0)
    (lines : List (List Char)) :
    (separator.intercalate lines).countP p = (lines.map (List.countP p)).sum := by
  induction lines with
  | nil => rfl
  | cons first rest ih =>
    cases rest with
    | nil => simp [List.intercalate]
    | cons second others =>
      have hcons : separator.intercalate (first :: second :: others)
          = first ++ separator ++ separator.intercalate (second :: others) := by
        simp [List.intercalate]
      rw [hcons, List.countP_append, List.countP_append, ih, h]
      simp

theorem countP_dropReturn (hp : Solid p) (line : List Char) :
    (dropReturn line).countP p = line.countP p := by
  unfold dropReturn
  split
  · rename_i hlast
    obtain ⟨front, rfl⟩ := List.getLast?_eq_some_iff.mp hlast
    have hreturn : List.countP p ['\r'] = 0 :=
      countP_blank hp (List.forall_mem_singleton.mpr rfl)
    rw [List.dropLast_concat, List.countP_append, hreturn, Nat.add_zero]
  · rfl

theorem sum_count_lines (hp : Solid p) (text : String) :
    ((lines text).map (count p)).sum = count p text := by
  have hfeed : List.countP p ['\n'] = 0 :=
    countP_blank hp (List.forall_mem_singleton.mpr rfl)
  have hlines : (lines text).map (count p)
      = (text.toList.splitOn '\n').map (List.countP p) := by
    simp only [lines, charLines, List.map_map]
    refine List.map_congr_left fun line _ => ?_
    simp [count_ofList, countP_dropReturn hp]
  rw [hlines, ← countP_intercalate hfeed, List.intercalate_splitOn, count]

theorem count_trim (hp : Solid p) (text : String) : count p (trim text) = count p text := by
  have hdrop (cs : List Char) : (dropBlanks cs).countP p = cs.countP p := by
    have hsplit := congrArg (List.countP p) (List.takeWhile_append_dropWhile (p := isBlank) (l := cs))
    have hblank : (cs.takeWhile isBlank).countP p = 0 :=
      countP_blank hp fun c hc => List.mem_takeWhile_imp hc
    rw [List.countP_append, hblank, Nat.zero_add] at hsplit
    exact hsplit
  unfold trim dropEndBlanks
  rw [count_ofList, List.countP_reverse, hdrop, List.countP_reverse, hdrop, count]

end Counting

end Text

open Text (count Solid)

variable {p : Char → Bool}

theorem Layout.count_newline (hp : Solid p) (layout : Layout) : count p layout.newline = 0 := by
  unfold Layout.newline LineEnding.text
  cases layout.lineEnding <;> exact Text.countP_blank hp (List.all_eq_true.mp (by decide))

theorem Layout.count_indentLine (hp : Solid p) (layout : Layout) (depth : Nat) (line : String) :
    count p (layout.indentLine depth line) = count p line := by
  unfold Layout.indentLine
  split
  · rfl
  · have hspaces : count p (layout.indentation depth) = 0 := by
      rw [Layout.indentation, Text.count_ofList]
      refine Text.countP_blank hp fun c hc => ?_
      rw [List.eq_of_mem_replicate hc]
      decide
    rw [Text.count_append, hspaces, Nat.zero_add]

/-- Laying out a text keeps its characters, blanks apart. -/
theorem Layout.count_format (hp : Solid p) (layout : Layout) (depth : Nat) (mode : AppendMode)
    (text : String) : count p (layout.format depth mode text) = count p text := by
  have hnewline := layout.count_newline hp
  have hend : count p (if mode.ends then layout.newline else "") = 0 := by
    split
    · exact hnewline
    · rfl
  unfold Layout.format
  rw [Text.count_append, hend, Text.count_intercalate hnewline, ← Text.sum_count_lines hp text]
  split
  · rw [List.map_map, Nat.add_zero]
    congr 1
    refine List.map_congr_left fun line _ => ?_
    exact layout.count_indentLine hp depth line
  · rfl

/-- Putting the parts of a statement together keeps their characters, blanks apart. -/
theorem Emit.count_joinParts (hp : Solid p) (layout : Layout) (parts : List String) :
    ((Emit.joinParts layout parts).map (count p)).getD 0 = (parts.map (count p)).sum := by
  have hparts : (((parts.map Text.trim).filter (· ≠ "")).map (count p)).sum
      = (parts.map (count p)).sum := by
    induction parts with
    | nil => rfl
    | cons part rest ih =>
      rw [List.map_cons, List.map_cons, List.sum_cons, ← ih, ← Text.count_trim hp part]
      by_cases h : Text.trim part = ""
      · simp [h]
      · simp [h]
  unfold Emit.joinParts
  split
  · rename_i hnone
    rw [← hparts, hnone]
    rfl
  · rw [Option.map_some, Option.getD_some, Text.count_intercalate (layout.count_newline hp), hparts]

end NativeLowering
