import NativeLowering.Proofs.Layout.Lines

/-!
# Two line endings

Written source is taken apart at line feeds, stripped of carriage returns, trimmed and joined again
at every level of nesting. With carriage returns in its line endings, all of this gives the text it
gives without them, with a carriage return put in before each line feed (`Text.returned`).

Two things are needed for that. The text without carriage returns must hold none of its own, for
such a one would be stripped at the next level in one of the two texts only (`Text.Returnless`). And
what stands on one line must not hold a line feed either (`Text.Flat`).
-/

set_option autoImplicit false

namespace NativeLowering

/-! ## Texts -/

namespace Text

/-- The characters with a carriage return before each line feed. -/
def returnedChars (cs : List Char) : List Char :=
  cs.flatMap fun c => if c = '\n' then ['\r', '\n'] else [c]

/-- The text with a carriage return before each line feed. -/
def returned (text : String) : String := String.ofList (returnedChars text.toList)

/-- The text has no carriage returns. -/
def Returnless (text : String) : Prop := '\r' ∉ text.toList

/-- The text has neither line feeds nor carriage returns. -/
structure Flat (text : String) : Prop where
  unbroken : Unbroken text
  returnless : Returnless text

instance (text : String) : Decidable (Returnless text) :=
  inferInstanceAs (Decidable ('\r' ∉ text.toList))

instance (text : String) : Decidable (Flat text) :=
  decidable_of_iff (Unbroken text ∧ Returnless text)
    ⟨fun ⟨h, h'⟩ => ⟨h, h'⟩, fun ⟨h, h'⟩ => ⟨h, h'⟩⟩

/-! ### Putting carriage returns in -/

@[simp] theorem returnedChars_feed (cs : List Char) :
    returnedChars ('\n' :: cs) = '\r' :: '\n' :: returnedChars cs := rfl

theorem returnedChars_cons {c : Char} (h : c ≠ '\n') (cs : List Char) :
    returnedChars (c :: cs) = c :: returnedChars cs := by
  simp [returnedChars, h]

theorem returnedChars_append (first second : List Char) :
    returnedChars (first ++ second) = returnedChars first ++ returnedChars second := by
  simp [returnedChars]

@[simp] theorem returned_append (first second : String) :
    returned (first ++ second) = returned first ++ returned second := by
  simp [returned, returnedChars_append]

theorem returnedChars_of_not_mem {cs : List Char} (h : '\n' ∉ cs) : returnedChars cs = cs := by
  induction cs with
  | nil => rfl
  | cons c rest ih =>
    rw [returnedChars_cons fun hc => h (by simp [hc]), ih fun hm => h (by simp [hm])]

theorem returned_of_unbroken {text : String} (h : Unbroken text) : returned text = text := by
  rw [returned, returnedChars_of_not_mem h, String.ofList_toList]

theorem returned_eq_empty {text : String} : returned text = "" ↔ text = "" := by
  constructor
  · intro h
    have hchars : returnedChars text.toList = [] := by
      rw [← String.toList_ofList (l := returnedChars text.toList)]
      exact congrArg String.toList h
    cases hcs : text.toList with
    | nil => exact String.toList_eq_nil_iff.mp hcs
    | cons c rest =>
      rw [hcs] at hchars
      by_cases hc : c = '\n'
      · rw [hc, returnedChars_feed] at hchars
        cases hchars
      · rw [returnedChars_cons hc] at hchars
        cases hchars
  · rintro rfl
    rfl

theorem returned_intercalate (separator : String) (texts : List String) :
    returned (separator.intercalate texts)
      = (returned separator).intercalate (texts.map returned) := by
  induction texts with
  | nil => rfl
  | cons first rest ih =>
    cases rest with
    | nil => simp
    | cons second others =>
      simp only [List.map_cons, String.intercalate_cons_cons, returned_append] at ih ⊢
      rw [ih]

/-! ### Texts without carriage returns -/

theorem returnless_empty : Returnless "" := by decide

@[simp] theorem returnless_append {first second : String} :
    Returnless (first ++ second) ↔ Returnless first ∧ Returnless second := by
  simp [Returnless, not_or]

theorem returnless_intercalate {separator : String} (hseparator : Returnless separator)
    {texts : List String} (h : ∀ text ∈ texts, Returnless text) :
    Returnless (separator.intercalate texts) := by
  induction texts with
  | nil => exact returnless_empty
  | cons first rest ih =>
    cases rest with
    | nil => simpa using h first (by simp)
    | cons second others =>
      rw [String.intercalate_cons_cons]
      simp only [returnless_append]
      exact ⟨⟨h first (by simp), hseparator⟩, ih fun text hm => h text (by simp [hm])⟩

@[simp] theorem flat_append {first second : String} :
    Flat (first ++ second) ↔ Flat first ∧ Flat second := by
  constructor
  · rintro ⟨hunbroken, hreturnless⟩
    rw [unbroken_append] at hunbroken
    rw [returnless_append] at hreturnless
    exact ⟨⟨hunbroken.1, hreturnless.1⟩, ⟨hunbroken.2, hreturnless.2⟩⟩
  · rintro ⟨⟨hfirst, hfirst'⟩, hsecond, hsecond'⟩
    exact ⟨unbroken_append.mpr ⟨hfirst, hsecond⟩, returnless_append.mpr ⟨hfirst', hsecond'⟩⟩

theorem flat_empty : Flat "" := by decide

theorem Flat.append {first second : String} (h : Flat first) (h' : Flat second) :
    Flat (first ++ second) := flat_append.mpr ⟨h, h'⟩

theorem flat_intercalate {separator : String} (hseparator : Flat separator) {texts : List String}
    (h : ∀ text ∈ texts, Flat text) : Flat (separator.intercalate texts) := by
  induction texts with
  | nil => exact flat_empty
  | cons first rest ih =>
    cases rest with
    | nil => simpa using h first (by simp)
    | cons second others =>
      rw [String.intercalate_cons_cons]
      exact ((h first (by simp)).append hseparator).append (ih fun text hm => h text (by simp [hm]))

theorem flat_of_intercalate {separator : String} {texts : List String}
    (h : Flat (separator.intercalate texts)) : ∀ text ∈ texts, Flat text := by
  induction texts with
  | nil => exact List.forall_mem_nil _
  | cons first rest ih =>
    cases rest with
    | nil => simpa using h
    | cons second others =>
      rw [String.intercalate_cons_cons, flat_append, flat_append] at h
      exact List.forall_mem_cons.mpr ⟨h.1.1, ih h.2⟩

theorem Flat.returned {text : String} (h : Flat text) : returned text = text :=
  returned_of_unbroken h.unbroken

/-! ### Taking apart -/

theorem charLines_feed (cs : List Char) : charLines ('\n' :: cs) = [] :: charLines cs := by
  simp [charLines, List.splitOn_cons_eq_if_modifyHead, dropReturn]

theorem charLines_return_feed (cs : List Char) :
    charLines ('\r' :: '\n' :: cs) = [] :: charLines cs := by
  simp [charLines, List.splitOn_cons_eq_if_modifyHead, dropReturn]

theorem charLines_returnedChars {cs : List Char} (h : '\r' ∉ cs) :
    charLines (returnedChars cs) = charLines cs := by
  induction cs with
  | nil => rfl
  | cons c rest ih =>
    have hrest := ih fun hm => h (by simp [hm])
    by_cases hc : c = '\n'
    · rw [hc, returnedChars_feed, charLines_return_feed, charLines_feed, hrest]
    · have hreturn : c ≠ '\r' := fun hc => h (by simp [hc])
      rw [returnedChars_cons hc, charLines_cons hc hreturn, charLines_cons hc hreturn, hrest]

/-- The carriage returns belong to the line breaks, not to the lines. -/
theorem lines_returned {text : String} (h : Returnless text) :
    lines (returned text) = lines text := by
  rw [lines, returned, String.toList_ofList, charLines_returnedChars h, lines]

theorem flat_charLines {cs : List Char} (h : '\r' ∉ cs) :
    ∀ line ∈ charLines cs, '\n' ∉ line ∧ '\r' ∉ line := by
  induction cs with
  | nil => simp [charLines, dropReturn]
  | cons c rest ih =>
    have hrest := ih fun hm => h (by simp [hm])
    by_cases hc : c = '\n'
    · rw [hc, charLines_feed]
      exact List.forall_mem_cons.mpr ⟨by simp, hrest⟩
    · have hreturn : c ≠ '\r' := fun hc => h (by simp [hc])
      rw [charLines_cons hc hreturn]
      cases hlines : charLines rest with
      | nil => exact List.forall_mem_nil _
      | cons line others =>
        rw [hlines] at hrest
        obtain ⟨hline, hothers⟩ := List.forall_mem_cons.mp hrest
        refine List.forall_mem_cons.mpr ⟨?_, hothers⟩
        simp [hline, Ne.symm hc, Ne.symm hreturn]

theorem flat_lines {text : String} (h : Returnless text) : ∀ line ∈ lines text, Flat line := by
  intro line hline
  obtain ⟨chars, hchars, rfl⟩ := List.mem_map.mp hline
  obtain ⟨hfeed, hreturn⟩ := flat_charLines h chars hchars
  constructor
  · rw [Unbroken, String.toList_ofList]
    exact hfeed
  · rw [Returnless, String.toList_ofList]
    exact hreturn

/-! ### Trimming -/

theorem dropBlanks_returnedChars (cs : List Char) :
    dropBlanks (returnedChars cs) = returnedChars (dropBlanks cs) := by
  induction cs with
  | nil => rfl
  | cons c rest ih =>
    by_cases hc : c = '\n'
    · rw [hc]
      exact ih
    · rw [returnedChars_cons hc]
      unfold dropBlanks at ih ⊢
      cases hblank : isBlank c with
      | true => simpa [hblank] using ih
      | false => simp [hblank, returnedChars_cons hc]

theorem dropEndBlanks_concat (cs : List Char) (c : Char) :
    dropEndBlanks (cs ++ [c]) = if isBlank c then dropEndBlanks cs else cs ++ [c] := by
  unfold dropEndBlanks dropBlanks
  rw [List.reverse_append, List.reverse_singleton, List.singleton_append, List.dropWhile_cons]
  split
  · rfl
  · simp

theorem dropEndBlanks_returnedChars (cs : List Char) :
    dropEndBlanks (returnedChars cs) = returnedChars (dropEndBlanks cs) := by
  induction cs using List.reverseRecOn with
  | nil => rfl
  | append_singleton front c ih =>
    rw [returnedChars_append]
    by_cases hc : c = '\n'
    · have hfeed : returnedChars front ++ returnedChars [c]
          = (returnedChars front ++ ['\r']) ++ ['\n'] := by
        rw [hc]
        simp [returnedChars]
      have hblank : isBlank '\n' = true ∧ isBlank '\r' = true := by decide
      rw [hfeed, dropEndBlanks_concat, dropEndBlanks_concat, dropEndBlanks_concat, hc, hblank.1,
        hblank.2]
      exact ih
    · have hkept : returnedChars [c] = [c] := returnedChars_cons hc []
      rw [hkept, dropEndBlanks_concat, dropEndBlanks_concat]
      split
      · exact ih
      · rw [returnedChars_append, hkept]

theorem trim_returned (text : String) : trim (returned text) = returned (trim text) := by
  simp only [trim, returned, String.toList_ofList, dropBlanks_returnedChars,
    dropEndBlanks_returnedChars]

theorem trimEnd_returned (text : String) : trimEnd (returned text) = returned (trimEnd text) := by
  simp only [trimEnd, returned, String.toList_ofList, dropEndBlanks_returnedChars]

theorem dropBlanks_subset (cs : List Char) : ∀ c ∈ dropBlanks cs, c ∈ cs :=
  fun _ hc => List.dropWhile_sublist _ |>.subset hc

theorem dropEndBlanks_subset (cs : List Char) : ∀ c ∈ dropEndBlanks cs, c ∈ cs := by
  intro c hc
  exact List.mem_reverse.mp (dropBlanks_subset _ c (List.mem_reverse.mp hc))

theorem Returnless.trim {text : String} (h : Returnless text) : Returnless (Text.trim text) := by
  intro hreturn
  rw [Text.trim, String.toList_ofList] at hreturn
  exact h (dropBlanks_subset _ _ (dropEndBlanks_subset _ _ hreturn))

/-- Empty texts stay empty, and no others become empty. -/
theorem filter_returned (texts : List String) :
    (texts.map returned).filter (· ≠ "") = (texts.filter (· ≠ "")).map returned := by
  rw [List.filter_map]
  congr 1
  refine List.filter_congr fun text _ => ?_
  simp [returned_eq_empty]

end Text

open Text (returned Returnless Flat Unbroken)

/-! ## Layout -/

namespace Layout

/-- The layout with a carriage return in each line ending. -/
def returned (layout : Layout) : Layout := { layout with lineEnding := .crlf }

variable {layout : Layout} (h : layout.newline = "\n")
include h

theorem newline_returned : layout.returned.newline = Text.returned layout.newline := by
  rw [h]
  rfl

theorem blankLine_returned : layout.returned.blankLine = Text.returned layout.blankLine := by
  rw [blankLine, blankLine, Text.returned_append, newline_returned h]

theorem returnless_newline : Returnless layout.newline := by
  rw [h]
  decide

omit h in
theorem flat_indentation (depth : Nat) : Flat (layout.indentation depth) := by
  have hspaces : ∀ c ∈ (layout.indentation depth).toList, c = ' ' := by
    intro c hc
    rw [indentation, String.toList_ofList] at hc
    exact List.eq_of_mem_replicate hc
  constructor
  · intro hfeed
    exact absurd (hspaces _ hfeed) (by decide)
  · intro hreturn
    exact absurd (hspaces _ hreturn) (by decide)

omit h in
theorem flat_indentLine {line : String} (hline : Flat line) (depth : Nat) :
    Flat (layout.indentLine depth line) := by
  unfold indentLine
  split
  · exact hline
  · exact (flat_indentation depth).append hline

omit h in
/-- The lines of a text are flat, indented or not. -/
theorem flat_laidOut (layout : Layout) {text : String} (htext : Returnless text) (depth : Nat)
    (mode : AppendMode) :
    ∀ line ∈ (if mode.indents then (Text.lines text).map (layout.indentLine depth)
      else Text.lines text), Flat line := by
  intro line hline
  split at hline
  · obtain ⟨own, hown, rfl⟩ := List.mem_map.mp hline
    exact flat_indentLine (Text.flat_lines htext own hown) depth
  · exact Text.flat_lines htext line hline

/-- **Laying out a text again** puts the same carriage returns in. -/
theorem format_returned {text : String} (htext : Returnless text) (depth : Nat)
    (mode : AppendMode) :
    layout.returned.format depth mode (Text.returned text)
      = Text.returned (layout.format depth mode text) := by
  have hlines := flat_laidOut layout htext depth mode
  have hending : (if mode.ends then layout.returned.newline else "")
      = Text.returned (if mode.ends then layout.newline else "") := by
    split
    · exact newline_returned h
    · rfl
  unfold format
  rw [Text.lines_returned htext, Text.returned_append, Text.returned_intercalate, hending,
    newline_returned h]
  rw [List.map_congr_left fun line hline => (hlines line hline).returned, List.map_id']
  rfl

theorem returnless_format {text : String} (htext : Returnless text) (depth : Nat)
    (mode : AppendMode) : Returnless (layout.format depth mode text) := by
  have hlines := flat_laidOut layout htext depth mode
  unfold format
  rw [Text.returnless_append]
  refine ⟨?_, ?_⟩
  · exact Text.returnless_intercalate (returnless_newline h) fun line hline =>
      (hlines line hline).returnless
  · split
    · exact returnless_newline h
    · exact Text.returnless_empty

/-- A piece of one line is laid out with the one line ending that may follow it. -/
theorem format_flat {text : String} (htext : Flat text) (depth : Nat) (mode : AppendMode) :
    layout.returned.format depth mode text = Text.returned (layout.format depth mode text) := by
  rw [← format_returned h htext.returnless, htext.returned]

omit h in
/-- A piece of a line is laid out as it is. -/
theorem inline_flat (layout : Layout) {text : String} (htext : Flat text) :
    layout.inline text = text := by
  have hlast : text.toList.getLast? ≠ some '\r' := fun hlast =>
    htext.returnless (List.mem_of_getLast? hlast)
  exact layout.format_inline htext.unbroken hlast

theorem joinParts_returned (parts : List String) :
    Emit.joinParts layout.returned (parts.map Text.returned)
      = (Emit.joinParts layout parts).map Text.returned := by
  have htrim : (parts.map Text.returned).map Text.trim
      = (parts.map Text.trim).map Text.returned := by
    rw [List.map_map, List.map_map]
    exact List.map_congr_left fun part _ => Text.trim_returned part
  unfold Emit.joinParts
  rw [htrim, Text.filter_returned]
  generalize (parts.map Text.trim).filter (· ≠ "") = kept
  cases kept with
  | nil => rfl
  | cons first rest =>
    dsimp only [List.map_cons]
    rw [Option.map_some, Text.returned_intercalate, newline_returned h, List.map_cons]

theorem returnless_joinParts {parts : List String} (hparts : ∀ part ∈ parts, Returnless part)
    {text : String} (htext : Emit.joinParts layout parts = some text) : Returnless text := by
  have htrimmed : ∀ part ∈ (parts.map Text.trim).filter (· ≠ ""), Returnless part := by
    intro part hpart
    obtain ⟨own, hown, rfl⟩ := List.mem_map.mp (List.mem_filter.mp hpart).1
    exact (hparts own hown).trim
  unfold Emit.joinParts at htext
  split at htext
  · cases htext
  · rename_i hfiltered
    cases htext
    exact Text.returnless_intercalate (returnless_newline h) htrimmed

end Layout

/-! ## Pairs of texts -/

/-- The first text has no carriage returns, and the second has one before each line feed. -/
structure Text.Returns (text text' : String) : Prop where
  returnless : Returnless text
  returned : text' = Text.returned text

namespace Text

theorem Flat.returns {text : String} (h : Flat text) : Returns text text :=
  ⟨h.returnless, h.returned.symm⟩

theorem returns_empty : Returns "" "" := flat_empty.returns

namespace Returns

variable {text text' : String} (h : Returns text text')
include h

theorem append {second second' : String} (hsecond : Returns second second') :
    Returns (text ++ second) (text' ++ second') := by
  obtain ⟨hreturnless, rfl⟩ := h
  obtain ⟨hsecond, rfl⟩ := hsecond
  exact ⟨returnless_append.mpr ⟨hreturnless, hsecond⟩, (returned_append text second).symm⟩

theorem format {layout : Layout} (hnewline : layout.newline = "\n") (depth : Nat)
    (mode : AppendMode) :
    Returns (layout.format depth mode text) (layout.returned.format depth mode text') := by
  obtain ⟨hreturnless, rfl⟩ := h
  exact ⟨Layout.returnless_format hnewline hreturnless depth mode,
    Layout.format_returned hnewline hreturnless depth mode⟩

end Returns

end Text

end NativeLowering
