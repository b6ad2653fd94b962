import NativeLowering.Emit.Session
import NativeLowering.Proofs.Layout.Endings

/-!
# String literals in a text

A string literal is a run of characters between double quotes that denotes a string
(`Text.Denotes`). A text that has literals is trimmed, taken apart at line breaks, indented and
joined with others at every level of nesting, and none of this gets into a literal, which begins and
ends with a quote and has no line break. So a text carries the same literals afterwards, in the same
order (`Carries.format`, `Carries.joinParts`).
-/

set_option autoImplicit false

namespace NativeLowering

/-! ## What a literal denotes -/

namespace Text

/-- The character that stands behind a backslash for another. -/
def unescape? : Char → Option Char
  | '\\' => some '\\'
  | '"' => some '"'
  | 'n' => some '\n'
  | 'r' => some '\r'
  | 't' => some '\t'
  | _ => none

/-- The characters of a string, from those between the quotes of its literal. A quote or a line
break cannot stand there as it is, and a backslash only as part of an escape. -/
def decode : List Char → Option (List Char)
  | [] => some []
  | '\\' :: [] => none
  | '\\' :: mark :: rest => (unescape? mark).bind fun c => (decode rest).map (c :: ·)
  | c :: rest => if c = '"' ∨ c = '\n' ∨ c = '\r' then none else (decode rest).map (c :: ·)

/-- The run of characters is a literal of the string. -/
def Denotes (run : List Char) (value : String) : Prop :=
  ∃ body, run = '"' :: (body ++ ['"']) ∧ decode body = some value.toList

theorem unescape?_flat {mark c : Char} (h : unescape? mark = some c) :
    mark ≠ '\n' ∧ mark ≠ '\r' := by
  constructor
  · rintro rfl
    cases h
  · rintro rfl
    cases h

/-- There are no line breaks in a literal, not even behind a backslash. -/
theorem flat_of_decode {body decoded : List Char} (h : decode body = some decoded) :
    ∀ c ∈ body, c ≠ '\n' ∧ c ≠ '\r' := by
  induction body using decode.induct generalizing decoded with
  | case1 => exact List.forall_mem_nil _
  | case2 => cases h
  | case3 mark rest ih =>
    rw [decode, Option.bind_eq_some_iff] at h
    obtain ⟨c, hmark, h⟩ := h
    obtain ⟨decodedRest, hrest, -⟩ := Option.map_eq_some_iff.mp h
    have hescape : '\\' ≠ '\n' ∧ '\\' ≠ '\r' := by decide
    exact List.forall_mem_cons.mpr
      ⟨hescape, List.forall_mem_cons.mpr ⟨unescape?_flat hmark, ih hrest⟩⟩
  | case4 c rest hend hescape hc =>
    rw [decode, if_pos hc] at h
    · cases h
    · exact hend
    · exact hescape
  | case5 c rest hend hescape hc ih =>
    rw [decode, if_neg hc] at h
    · obtain ⟨decodedRest, hrest, -⟩ := Option.map_eq_some_iff.mp h
      simp only [not_or] at hc
      exact List.forall_mem_cons.mpr ⟨hc.2, ih hrest⟩
    · exact hend
    · exact hescape

/-- A literal begins and ends with a quote and has no line break. -/
theorem Denotes.shape {run : List Char} {value : String} (h : Denotes run value) :
    ∃ body, run = '"' :: (body ++ ['"']) ∧ ∀ c ∈ run, c ≠ '\n' ∧ c ≠ '\r' := by
  obtain ⟨body, rfl, hbody⟩ := h
  refine ⟨body, rfl, ?_⟩
  have hquote : '"' ≠ '\n' ∧ '"' ≠ '\r' := by decide
  have hend : ∀ c ∈ body ++ ['"'], c ≠ '\n' ∧ c ≠ '\r' :=
    List.forall_mem_append.mpr ⟨flat_of_decode hbody, List.forall_mem_singleton.mpr hquote⟩
  exact List.forall_mem_cons.mpr ⟨hquote, hend⟩

end Text

open Text (Denotes)

/-! ## Texts with literals -/

/-- The characters have literals of these strings, one behind the other. -/
inductive Carries : List String → List Char → Prop
  | nil : Carries [] []
  | char {values : List String} {cs : List Char} (c : Char) :
    Carries values cs → Carries values (c :: cs)
  | literal {value : String} {values : List String} {run cs : List Char} :
    Denotes run value → Carries values cs → Carries (value :: values) (run ++ cs)

namespace Carries

variable {values more : List String} {cs others : List Char}

theorem append (h : Carries values cs) (hmore : Carries more others) :
    Carries (values ++ more) (cs ++ others) := by
  induction h with
  | nil => exact hmore
  | char c _ ih => exact .char c ih
  | literal hrun _ ih =>
    rw [List.append_assoc, List.cons_append]
    exact .literal hrun ih

/-- Any characters may stand between literals. -/
theorem gap : ∀ cs : List Char, Carries [] cs
  | [] => .nil
  | c :: rest => .char c (gap rest)

theorem behind (h : Carries values cs) (front : List Char) : Carries values (front ++ cs) :=
  (gap front).append h

theorem before (h : Carries values cs) (rest : List Char) : Carries values (cs ++ rest) := by
  have hboth := h.append (gap rest)
  rwa [List.append_nil] at hboth

/-- A text that another one is in has its literals. -/
theorem within (h : Carries values cs) (hin : cs <:+: others) : Carries values others := by
  obtain ⟨front, rest, rfl⟩ := hin
  exact (h.behind front).before rest

/-- There are no literals in nothing. -/
theorem eq_nil (h : Carries values []) : values = [] := by
  generalize hcs : ([] : List Char) = cs at h
  cases h with
  | nil => rfl
  | char c _ => cases hcs
  | literal hrun _ =>
    obtain ⟨body, rfl, -⟩ := hrun.shape
    cases hcs

/-! ### Trimming -/

/-- The last character can be cut off, unless it is a quote. -/
theorem of_concat {c : Char} (hc : c ≠ '"') (h : Carries values (cs ++ [c])) :
    Carries values cs := by
  generalize hwhole : cs ++ [c] = whole at h
  induction h generalizing cs with
  | nil => simp at hwhole
  | @char values rest first hrest ih =>
    cases cs with
    | nil =>
      obtain ⟨-, rfl⟩ := List.cons.inj hwhole
      exact hrest
    | cons d others =>
      rw [List.cons_append, List.cons.injEq] at hwhole
      obtain ⟨rfl, hrest⟩ := hwhole
      exact .char d (ih hrest)
  | @literal value values run rest hrun hrest ih =>
    rcases List.eq_nil_or_concat' rest with rfl | ⟨front, last, rfl⟩
    · -- The character would be the quote that the literal ends with.
      obtain ⟨body, rfl, -⟩ := hrun.shape
      rw [List.append_nil, ← List.cons_append] at hwhole
      obtain ⟨-, hlast⟩ := List.append_inj' hwhole rfl
      exact absurd (List.head_eq_of_cons_eq hlast) hc
    · rw [← List.append_assoc] at hwhole
      obtain ⟨rfl, hlast⟩ := List.append_inj' hwhole rfl
      exact .literal hrun (ih (congrArg (front ++ ·) hlast))

theorem dropBlanks (h : Carries values cs) : Carries values (Text.dropBlanks cs) := by
  induction h with
  | nil => exact .nil
  | @char values rest c hrest ih =>
    unfold Text.dropBlanks at ih ⊢
    cases hblank : Text.isBlank c with
    | true => simpa [hblank] using ih
    | false => simpa [hblank] using hrest.char c
  | @literal value values run rest hrun hrest ih =>
    obtain ⟨body, rfl, -⟩ := hrun.shape
    have hquote : Text.isBlank '"' = false := by decide
    have hkept : Text.dropBlanks ('"' :: (body ++ ['"']) ++ rest) = '"' :: (body ++ ['"']) ++ rest := by
      simp [Text.dropBlanks, hquote]
    rw [hkept]
    exact .literal hrun hrest

theorem dropEndBlanks (h : Carries values cs) : Carries values (Text.dropEndBlanks cs) := by
  induction cs using List.reverseRecOn with
  | nil => exact h
  | append_singleton front c ih =>
    rw [Text.dropEndBlanks_concat]
    split
    · rename_i hblank
      have hc : c ≠ '"' := by
        rintro rfl
        exact absurd hblank (by decide)
      exact ih (h.of_concat hc)
    · exact h

theorem trim {text : String} (h : Carries values text.toList) :
    Carries values (Text.trim text).toList := by
  rw [Text.trim, String.toList_ofList]
  exact h.dropBlanks.dropEndBlanks

theorem trimEnd {text : String} (h : Carries values text.toList) :
    Carries values (Text.trimEnd text).toList := by
  rw [Text.trimEnd, String.toList_ofList]
  exact h.dropEndBlanks

end Carries

/-! ### Laying out -/

namespace Text

theorem charLines_ne_nil (cs : List Char) : charLines cs ≠ [] := by
  simp [charLines, List.splitOn_ne_nil]

/-- A character that ends no line is in the first line, unless it is the carriage return of a line
break. -/
theorem charLines_inLine {c : Char} (hfeed : c ≠ '\n') (cs : List Char) :
    ∃ gap, charLines (c :: cs) = (charLines cs).modifyHead (gap ++ ·) := by
  by_cases hreturn : c = '\r'
  · subst hreturn
    unfold charLines
    rw [List.splitOn_cons_eq_if_modifyHead]
    cases cs.splitOn '\n' with
    | nil => exact ⟨[], rfl⟩
    | cons line rest =>
      cases line with
      | nil => exact ⟨[], rfl⟩
      | cons d others =>
        refine ⟨['\r'], ?_⟩
        have hdrop : dropReturn ('\r' :: d :: others) = '\r' :: dropReturn (d :: others) := by
          unfold dropReturn
          rw [List.getLast?_cons_cons]
          split <;> rfl
        simp [hdrop]
  · exact ⟨[c], charLines_cons hfeed hreturn cs⟩

/-- Lines that are put together again with something in front of each but the first. -/
def rejoin (newline : List Char) (front : List Char → List Char) :
    List (List Char) → List Char
  | [] => []
  | line :: rest => line ++ rest.flatMap fun other => newline ++ front other

theorem rejoin_modifyHead {newline : List Char} {front : List Char → List Char}
    {lines : List (List Char)} (hne : lines ≠ []) (gap : List Char) :
    rejoin newline front (lines.modifyHead (gap ++ ·)) = gap ++ rejoin newline front lines := by
  cases lines with
  | nil => exact absurd rfl hne
  | cons line rest => exact List.append_assoc ..

/-- What a character becomes stands in front of what becomes of the characters behind it. -/
theorem rejoin_cons {newline : List Char} {front : List Char → List Char}
    (hfront : ∀ line, ∃ gap, front line = gap ++ line) (c : Char) (cs : List Char) :
    ∃ gap, rejoin newline front (charLines (c :: cs))
      = gap ++ rejoin newline front (charLines cs) := by
  by_cases hfeed : c = '\n'
  · subst hfeed
    rw [charLines_feed]
    cases hlines : charLines cs with
    | nil => exact absurd hlines (charLines_ne_nil cs)
    | cons line rest =>
      obtain ⟨gap, hgap⟩ := hfront line
      refine ⟨newline ++ gap, ?_⟩
      simp [rejoin, hgap]
  · obtain ⟨gap, hgap⟩ := charLines_inLine hfeed cs
    exact ⟨gap, by rw [hgap, rejoin_modifyHead (charLines_ne_nil cs)]⟩

end Text

namespace Carries

variable {values : List String} {cs newline : List Char} {front : List Char → List Char}

/-- **Taking a text apart at its line breaks** and putting it together again keeps the literals. -/
theorem rejoin (hfront : ∀ line, ∃ gap, front line = gap ++ line) (h : Carries values cs) :
    Carries values (Text.rejoin newline front (Text.charLines cs)) := by
  induction h with
  | nil => exact .nil
  | char c _ ih =>
    obtain ⟨gap, hgap⟩ := Text.rejoin_cons hfront c _
    rw [hgap]
    exact ih.behind gap
  | literal hrun _ ih =>
    -- There is no line break in a literal, so the first line begins with all of it.
    obtain ⟨body, -, hflat⟩ := hrun.shape
    rw [Text.charLines_append hflat, Text.rejoin_modifyHead (Text.charLines_ne_nil _)]
    exact .literal hrun ih

theorem intercalate_cons (newline line : List Char) (rest : List (List Char)) :
    newline.intercalate (line :: rest) = line ++ rest.flatMap (newline ++ ·) := by
  induction rest generalizing line with
  | nil => simp
  | cons other others ih =>
    rw [List.intercalate_cons_cons, ih, List.flatMap_cons, List.append_assoc, List.append_assoc]

/-- What laying out does to a line puts something in front of it. -/
theorem gap_laidOut (layout : Layout) (depth : Nat) (mode : AppendMode) (line : List Char) :
    ∃ gap, (if mode.indents then layout.indentLine depth (String.ofList line)
      else String.ofList line).toList = gap ++ line := by
  split
  · unfold Layout.indentLine
    split
    · exact ⟨[], String.toList_ofList⟩
    · exact ⟨(layout.indentation depth).toList, by
        rw [String.toList_append, String.toList_ofList]⟩
  · exact ⟨[], String.toList_ofList⟩

theorem format {text : String} (h : Carries values text.toList) (layout : Layout) (depth : Nat)
    (mode : AppendMode) : Carries values (layout.format depth mode text).toList := by
  have hfront := gap_laidOut layout depth mode
  have hlines : (if mode.indents then (Text.lines text).map (layout.indentLine depth)
      else Text.lines text).map String.toList
      = (Text.charLines text.toList).map fun line =>
        (if mode.indents then layout.indentLine depth (String.ofList line)
          else String.ofList line).toList := by
    unfold Text.lines
    split <;> simp
  unfold Layout.format
  dsimp only
  rw [String.toList_append, String.toList_intercalate, hlines]
  refine Carries.before ?_ _
  have hjoined : Carries values (Text.rejoin layout.newline.toList _ (Text.charLines text.toList)) :=
    h.rejoin hfront
  cases hcut : Text.charLines text.toList with
  | nil => exact absurd hcut (Text.charLines_ne_nil _)
  | cons line rest =>
    rw [hcut] at hjoined
    obtain ⟨gap, hgap⟩ := hfront line
    rw [List.map_cons, intercalate_cons, hgap, List.append_assoc, List.flatMap_map]
    exact hjoined.behind gap

/-! ### Joining -/

/-- A text that is left out for being empty has no literals. -/
theorem joinFilled {separator : String} : ∀ {texts : List String} {valuesAll : List (List String)},
    List.Forall₂ (fun values text => Carries values text.toList) valuesAll texts →
    Carries valuesAll.flatten (separator.intercalate (texts.filter (· ≠ ""))).toList
  | [], _, h => by
    cases h
    exact .nil
  | text :: rest, _, h => by
    cases h with
    | @cons values _ valuesRest _ hfirst hrest =>
      have hothers : Carries valuesRest.flatten
          (separator.intercalate (rest.filter (· ≠ ""))).toList := joinFilled hrest
      rw [List.flatten_cons]
      by_cases hempty : text = ""
      · subst hempty
        rw [hfirst.eq_nil]
        exact hothers
      · rw [List.filter_cons_of_pos (by simpa using hempty)]
        by_cases hlast : rest.filter (· ≠ "") = []
        · rw [hlast] at hothers ⊢
          rw [hothers.eq_nil, List.append_nil, String.intercalate_singleton]
          exact hfirst
        · rw [String.intercalate_cons_of_ne_nil hlast, String.toList_append, String.toList_append,
            List.append_assoc]
          exact hfirst.append (hothers.behind separator.toList)

/-- A statement has the literals of its parts, and none if nothing is left of it. -/
theorem joinParts {layout : Layout} {valuesAll : List (List String)} {texts : List String}
    (h : List.Forall₂ (fun values text => Carries values text.toList) valuesAll texts) :
    Carries valuesAll.flatten ((Emit.joinParts layout texts).getD "").toList := by
  have htrimmed : List.Forall₂ (fun values text => Carries values text.toList) valuesAll
      (texts.map Text.trim) :=
    List.forall₂_map_right_iff.mpr (h.imp fun _ _ hcarries => hcarries.trim)
  have hjoined : Carries valuesAll.flatten
      (layout.newline.intercalate ((texts.map Text.trim).filter (· ≠ ""))).toList :=
    joinFilled htrimmed
  unfold Emit.joinParts
  cases hfilled : (texts.map Text.trim).filter (· ≠ "") with
  | nil =>
    rw [hfilled] at hjoined
    exact hjoined
  | cons first rest =>
    rw [hfilled] at hjoined
    exact hjoined

end Carries

end NativeLowering
