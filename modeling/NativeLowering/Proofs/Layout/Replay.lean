import NativeLowering.Proofs.Layout.Endings

/-!
# Appending what was appended

The text of a statement is written into a buffer of its own and then appended, as lines, to the
buffer around it. That is right because appending composes. The lines of two texts with a line feed
between them are the lines of one and then those of the other (`Buffer.append_lines`). And what some
steps have written at one depth, appended at another, is what the same steps write at the sum of the
two (`Buffer.append_replay`).

`Buffer.writtenLines` is what makes both visible: the lines that steps write, each with its
indentation and before any line ending.

Two things would break the second law. Where a dedent finds no level to take back it does nothing,
so the depths of the two runs would part (`Buffer.DedentsWithin`). And of a carriage return at the
end of a text one is dropped at every appending.
-/

set_option autoImplicit false

namespace NativeLowering

/-! ## Lines of two texts -/

namespace Text

theorem charLines_feed_between (first second : List Char) :
    charLines (first ++ '\n' :: second) = charLines first ++ charLines second := by
  unfold charLines
  rw [List.splitOn_append_cons_self, List.map_append]

theorem lines_feed_between (first second : String) :
    lines (first ++ "\n" ++ second) = lines first ++ lines second := by
  have hchars : (first ++ "\n" ++ second).toList = first.toList ++ '\n' :: second.toList := by
    simp
  rw [lines, hchars, charLines_feed_between, List.map_append]
  rfl

theorem lines_ne_nil (text : String) : lines text ≠ [] := by
  simp [lines, charLines]

end Text

/-! ## Lines at a depth -/

namespace Layout

variable (layout : Layout)

/-- Lines, each with a line ending behind it. -/
def terminated (lines : List String) : String :=
  String.join (lines.map (· ++ layout.newline))

theorem terminated_append (first second : List String) :
    layout.terminated (first ++ second) = layout.terminated first ++ layout.terminated second := by
  simp [terminated]

theorem terminated_eq_intercalate {lines : List String} (hne : lines ≠ []) :
    layout.terminated lines = layout.newline.intercalate lines ++ layout.newline := by
  induction lines with
  | nil => exact absurd rfl hne
  | cons line rest ih =>
    cases rest with
    | nil => simp [terminated]
    | cons other others =>
      have hsplit := layout.terminated_append [line] (other :: others)
      rw [List.singleton_append] at hsplit
      rw [hsplit, ih (List.cons_ne_nil _ _), String.intercalate_cons_cons]
      simp [terminated, String.append_assoc]

theorem format_line_eq (depth : Nat) (text : String) :
    layout.format depth .line text
      = layout.terminated ((Text.lines text).map (layout.indentLine depth)) := by
  have hne : (Text.lines text).map (layout.indentLine depth) ≠ [] := by
    simpa using Text.lines_ne_nil text
  rw [layout.terminated_eq_intercalate hne]
  rfl

/-- Indenting twice is indenting once, to the depths together. -/
theorem indentLine_indentLine (depth more : Nat) (line : String) :
    layout.indentLine depth (layout.indentLine more line)
      = layout.indentLine (depth + more) line := by
  by_cases hempty : line = ""
  · simp [indentLine, hempty]
  · have hinner : layout.indentation more ++ line ≠ "" := by
      intro h
      exact hempty (String.append_eq_empty_iff.mp h).2
    rw [indentLine, indentLine, if_neg hempty, if_neg hinner, indentLine, if_neg hempty,
      layout.indentation_add, String.append_assoc]

/-- Lines that were joined are found again, empty ones too. -/
theorem lines_intercalate {lines : List String} (hne : lines ≠ [])
    (h : ∀ line ∈ lines, Text.Flat line) :
    Text.lines (layout.newline.intercalate lines) = lines := by
  have hends (line : List Char) (hline : line ∈ lines.map String.toList) :
      '\n' ∉ line ∧ line.getLast? ≠ some '\r' := by
    obtain ⟨text, htext, rfl⟩ := List.mem_map.mp hline
    refine ⟨(h text htext).unbroken, fun hlast => ?_⟩
    exact (h text htext).returnless (List.mem_of_getLast? hlast)
  rw [Text.lines, String.toList_intercalate,
    layout.charLines_intercalate (by simpa using hne) hends]
  simp

end Layout

/-! ## Replaying steps -/

namespace Buffer

/-- What can be done to a buffer while lines are written into it. -/
inductive Step where
  /-- Appends a text as lines. -/
  | append (text : String)
  | indent
  | dedent

/-- A buffer after a step. -/
def step (buffer : Buffer) : Step → Buffer
  | .append text => buffer.append text .line
  | .indent => buffer.indent
  | .dedent => buffer.dedent

/-- A buffer after steps. -/
def replay (buffer : Buffer) (steps : List Step) : Buffer := steps.foldl step buffer

/-- The steps go at most that many levels further out than where they start. -/
def DedentsWithin : Nat → List Step → Prop
  | _, [] => True
  | levels, .append _ :: rest => DedentsWithin levels rest
  | levels, .indent :: rest => DedentsWithin (levels + 1) rest
  | 0, .dedent :: _ => False
  | levels + 1, .dedent :: rest => DedentsWithin levels rest

/-- The lines that steps write when they start at a depth. -/
def writtenLines (layout : Layout) : Nat → List Step → List String
  | _, [] => []
  | depth, .append text :: rest =>
    (Text.lines text).map (layout.indentLine depth) ++ writtenLines layout depth rest
  | depth, .indent :: rest => writtenLines layout (depth + 1) rest
  | depth, .dedent :: rest => writtenLines layout (depth - 1) rest

theorem text_append_line (buffer : Buffer) (text : String) :
    (buffer.append text .line).text = buffer.text ++ buffer.layout.terminated
      ((Text.lines text).map (buffer.layout.indentLine buffer.depth)) := by
  rw [← buffer.layout.format_line_eq]
  rfl

theorem text_replay (buffer : Buffer) (steps : List Step) :
    (buffer.replay steps).text
      = buffer.text
        ++ buffer.layout.terminated (writtenLines buffer.layout buffer.depth steps) := by
  induction steps generalizing buffer with
  | nil => simp [replay, writtenLines, Layout.terminated]
  | cons first rest ih =>
    have hrest := ih (buffer.step first)
    cases first with
    | append text =>
      rw [writtenLines, Layout.terminated_append, ← String.append_assoc, ← text_append_line]
      exact hrest
    | indent => exact hrest
    | dedent => exact hrest

theorem flat_writtenLines (layout : Layout) {steps : List Step}
    (h : ∀ text, Step.append text ∈ steps → Text.Returnless text) (depth : Nat) :
    ∀ line ∈ writtenLines layout depth steps, Text.Flat line := by
  induction steps generalizing depth with
  | nil => exact nofun
  | cons first rest ih =>
    have hrest := ih fun text hm => h text (List.mem_cons_of_mem _ hm)
    cases first with
    | append text =>
      rw [writtenLines, List.forall_mem_append, List.forall_mem_map]
      refine ⟨fun line hline => ?_, hrest depth⟩
      exact layout.flat_indentLine (Text.flat_lines (h text List.mem_cons_self) line hline) depth
    | indent => exact hrest (depth + 1)
    | dedent => exact hrest (depth - 1)

theorem writtenLines_ne_nil (layout : Layout) {steps : List Step} {text : String}
    (h : Step.append text ∈ steps) (depth : Nat) : writtenLines layout depth steps ≠ [] := by
  induction steps generalizing depth with
  | nil => cases h
  | cons first rest ih =>
    cases first with
    | append other => simp [writtenLines, Text.lines_ne_nil]
    | indent => exact ih (by simpa using h) (depth + 1)
    | dedent => exact ih (by simpa using h) (depth - 1)

/-- Lines written at a depth and indented once more are the lines written that much deeper. -/
theorem map_indentLine_writtenLines (layout : Layout) (outer : Nat) {steps : List Step}
    {levels depth : Nat} (h : DedentsWithin levels steps) (hdepth : levels ≤ depth) :
    (writtenLines layout depth steps).map (layout.indentLine outer)
      = writtenLines layout (outer + depth) steps := by
  induction steps generalizing levels depth with
  | nil => rfl
  | cons first rest ih =>
    cases first with
    | append text =>
      rw [writtenLines, writtenLines, List.map_append, List.map_map, ih h hdepth]
      congr 1
      exact List.map_congr_left fun line _ => layout.indentLine_indentLine outer depth line
    | indent =>
      rw [writtenLines, writtenLines, ih h (Nat.succ_le_succ hdepth), Nat.add_assoc]
    | dedent =>
      cases levels with
      | zero => exact h.elim
      | succ levels =>
        -- The level to take back is there in both runs.
        have hless : outer + depth - 1 = outer + (depth - 1) := by omega
        rw [writtenLines, writtenLines, ih h (by omega), hless]

/-! ## The two laws -/

theorem append_lines (buffer : Buffer) (first second : String) :
    buffer.append (first ++ "\n" ++ second) .line
      = (buffer.append first .line).append second .line := by
  have htext : (buffer.append (first ++ "\n" ++ second) .line).text
      = ((buffer.append first .line).append second .line).text := by
    rw [text_append_line, text_append_line, text_append_line, Text.lines_feed_between,
      List.map_append, Layout.terminated_append, ← String.append_assoc]
    rfl
  exact congrArg (fun text => { buffer with text }) htext

theorem append_replay (buffer : Buffer) {steps : List Step} {levels depth : Nat}
    (hwithin : DedentsWithin levels steps) (hdepth : levels ≤ depth)
    (hreturnless : ∀ text, Step.append text ∈ steps → Text.Returnless text)
    (happends : ∃ text, Step.append text ∈ steps) :
    ∃ body, ((atDepth buffer.layout depth).replay steps).text = body ++ buffer.layout.newline ∧
      (buffer.append body .line).text
        = ({ buffer with depth := buffer.depth + depth }.replay steps).text := by
  obtain ⟨text, happends⟩ := happends
  have hne := writtenLines_ne_nil buffer.layout happends depth
  have hflat := flat_writtenLines buffer.layout hreturnless depth
  refine ⟨buffer.layout.newline.intercalate (writtenLines buffer.layout depth steps), ?_, ?_⟩
  · rw [text_replay, ← buffer.layout.terminated_eq_intercalate hne]
    exact String.empty_append
  · rw [text_append_line, text_replay, buffer.layout.lines_intercalate hne hflat,
      map_indentLine_writtenLines buffer.layout buffer.depth hwithin hdepth]

/-- **Appending composes.** Two texts with a line feed between them are appended as one and then the
other. And steps that write at least one text, none with a carriage return, can be replayed in a
buffer of their own and appended: what they write from a depth on, without the last line ending,
appended at another depth, is what they write from the sum of the two on. They must not go further
out than where they start; if they do, the buffer of their own has to have that many levels. -/
theorem appending_composes (buffer : Buffer) :
    (∀ first second, buffer.append (first ++ "\n" ++ second) .line
      = (buffer.append first .line).append second .line) ∧
    ∀ {steps : List Step} {levels depth : Nat}, DedentsWithin levels steps → levels ≤ depth →
      (∀ text, Step.append text ∈ steps → Text.Returnless text) →
      (∃ text, Step.append text ∈ steps) →
      ∃ body, ((atDepth buffer.layout depth).replay steps).text = body ++ buffer.layout.newline ∧
        (buffer.append body .line).text
          = ({ buffer with depth := buffer.depth + depth }.replay steps).text :=
  ⟨buffer.append_lines, buffer.append_replay⟩

/-! ## A loop in a block -/

/-- The steps that write a loop: its header, its body a level further in, and its end. -/
def loopSteps : List Step :=
  [.append "while (ready)\n\x7b", .indent, .append "read();\n\nwrite();", .dedent, .append "\x7d"]

/-- A buffer two levels in, with carriage returns in its line endings. -/
def innerBuffer : Buffer :=
  { text := "\x7b\r\n", depth := 2, layout := { indentWidth := 2, lineEnding := .crlf } }

theorem appending_composes_loop : DedentsWithin 0 loopSteps ∧
    (∀ text, Step.append text ∈ loopSteps → Text.Returnless text) ∧
    ∃ body, ((atDepth innerBuffer.layout 1).replay loopSteps).text
        = body ++ innerBuffer.layout.newline ∧
      (innerBuffer.append body .line).text
        = ({ innerBuffer with depth := 3 }.replay loopSteps).text := by
  have hwithin : DedentsWithin 0 loopSteps := trivial
  have hreturnless : ∀ text, Step.append text ∈ loopSteps → Text.Returnless text := by
    simp [loopSteps]
    decide
  have happends : ∃ text, Step.append text ∈ loopSteps := ⟨"\x7d", by simp [loopSteps]⟩
  refine ⟨hwithin, hreturnless, ?_⟩
  exact (appending_composes innerBuffer).2 hwithin (Nat.zero_le 1) hreturnless happends

example : ({ innerBuffer with depth := 3 }.replay loopSteps).text =
    "\x7b\r\n      while (ready)\r\n      \x7b\r\n" ++
      "        read();\r\n\r\n        write();\r\n      \x7d\r\n" := by
  decide +kernel

end Buffer

end NativeLowering
