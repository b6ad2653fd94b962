import Mathlib.Data.List.Infix
import NativeLowering.Emit.Session

/-!
# Where a record stands in its file

A file is put together from the texts of its records, with blank lines between. Each of these texts
is in the file as it was printed (`Session.function_isInfix`, `Session.class_isInfix`), and the
definition of a method is in the text of its class (`ClassRecord.method_isInfix`).
-/

set_option autoImplicit false

namespace NativeLowering

/-- A text is in what it is joined into. -/
theorem Text.infix_intercalate (separator : String) {text : String} {texts : List String}
    (h : text ∈ texts) : text.toList <:+: (separator.intercalate texts).toList := by
  induction texts with
  | nil => cases h
  | cons first rest ih =>
    cases rest with
    | nil =>
      obtain rfl := List.mem_singleton.mp h
      rw [String.intercalate_singleton]
    | cons second others =>
      rw [String.intercalate_cons_cons, String.toList_append, String.toList_append]
      rcases List.mem_cons.mp h with rfl | h
      · exact ⟨[], separator.toList ++ (separator.intercalate (second :: others)).toList, by simp⟩
      · exact (ih h).trans (List.suffix_append _ _).isInfix

/-- Sections that are not empty are left in, and a file that is not empty is ended. -/
theorem Text.infix_sections (separator newline : String) {text : String} {sections : List String}
    (h : text ∈ sections) :
    text.toList <:+:
      (let whole := separator.intercalate (sections.filter (· ≠ ""))
        if whole = "" then "" else whole ++ newline).toList := by
  dsimp only
  have hwhole : text.toList <:+: (separator.intercalate (sections.filter (· ≠ ""))).toList := by
    by_cases hempty : text = ""
    · rw [hempty]
      exact ⟨[], _, rfl⟩
    · exact infix_intercalate separator (List.mem_filter.mpr ⟨h, by simpa using hempty⟩)
  split
  · rename_i hempty
    rwa [hempty] at hwhole
  · rw [String.toList_append]
    exact hwhole.trans (List.prefix_append _ _).isInfix

namespace ClassRecord

theorem method_isInfix {record : ClassRecord} {method : MethodRecord}
    (h : method ∈ record.methods) (layout : Layout) :
    method.function.print.toList <:+: (record.print layout).toList :=
  Text.infix_intercalate _ (List.mem_cons_of_mem _
    (List.mem_map_of_mem (f := fun method : MethodRecord => method.function.print) h))

end ClassRecord

namespace Session

variable {session : Session} (order : OutputOrder)

/-- The functions and the classes of a session are sections of its file. -/
theorem sections_isInfix {text : String}
    (h : text = session.layout.blankLine.intercalate (session.functions.map FunctionRecord.print) ∨
      text = session.layout.blankLine.intercalate
        (session.classes.map (·.print session.layout))) :
    text.toList <:+: (session.text order).toList := by
  unfold Session.text
  dsimp only
  cases order with
  | functionsFirst =>
    apply Text.infix_sections
    rcases h with rfl | rfl <;> simp
  | classesFirst =>
    apply Text.infix_sections
    rcases h with rfl | rfl <;> simp

theorem function_isInfix {record : FunctionRecord} (h : record ∈ session.functions) :
    record.print.toList <:+: (session.text order).toList :=
  (Text.infix_intercalate _ (List.mem_map_of_mem h)).trans (sections_isInfix order (.inl rfl))

theorem class_isInfix {record : ClassRecord} (h : record ∈ session.classes) :
    (record.print session.layout).toList <:+: (session.text order).toList := by
  have hprinted : record.print session.layout ∈ session.classes.map (·.print session.layout) :=
    List.mem_map.mpr ⟨record, h, rfl⟩
  exact (Text.infix_intercalate _ hprinted).trans (sections_isInfix order (.inr rfl))

end Session

end NativeLowering
