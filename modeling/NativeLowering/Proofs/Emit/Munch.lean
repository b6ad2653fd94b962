import Mathlib

/-!
# Reading operators by maximal munch

A native compiler reads the longest operator that it can at each place, so two operators that are
written next to each other may be read as one. Here characters know which operator they were written
for, if for any, and `scan` reads tokens off them outside string literals. A token is fused if it has
characters of two operators.

Where no operator reaches across a place, what is read before it and what is read after it is read
independently (`scan_append`).
-/

set_option autoImplicit false

namespace NativeLowering

/-- The native operators of more than one character or of one. Brackets, commas and semicolons are
none: they stand for themselves wherever they are written. -/
def nativeOperators : List (List Char) :=
  ["->*", "<=>", "<<=", ">>=", "...", "::", ".*", "->", "++", "--", "<<", ">>", "<=", ">=", "==", "!=",
    "&&", "||", "+=", "-=", "*=", "/=", "%=", "&=", "|=", "^=", ".", "~", "!", "+", "-", "*", "/", "%",
    "^", "&", "|", "=", "<", ">", "?", ":"].map String.toList

/-- Whether a character can be part of an operator. -/
def isOperatorChar (c : Char) : Bool :=
  ['+', '-', '*', '/', '%', '^', '&', '|', '~', '!', '=', '<', '>', '?', ':', '.'].contains c

/-- The length of the longest operator that the characters begin with. -/
def munch (cs : List Char) : Nat :=
  (nativeOperators.filter (·.isPrefixOf cs)).foldr (fun token n => max token.length n) 0

/-- A character, with the number of the operator that it was written for. -/
abbrev Mark := Char × Option Nat

/-- The characters alone. -/
def Mark.chars (marks : List Mark) : List Char := marks.map Prod.fst

/-- The operators that are read, each the longest possible, after some characters to be left out.
Nothing is read inside a string literal, where a backslash protects the next character. -/
def scan : Nat → Bool → List Mark → List (List Mark)
  | _, _, [] => []
  | skip + 1, inString, _ :: rest => scan skip inString rest
  | 0, true, mark :: rest =>
    if mark.1 = '\\' then scan 1 true rest
    else scan 0 (decide (mark.1 ≠ '"')) rest
  | 0, false, mark :: rest =>
    if mark.1 = '"' then scan 0 true rest
    else
      match munch (Mark.chars (mark :: rest)) with
      | 0 => scan 0 false rest
      | skip + 1 => (mark :: rest).take (skip + 1) :: scan skip false rest

/-- The token has characters of two operators. -/
def Fused (token : List Mark) : Prop :=
  ∃ first ∈ token, ∃ second ∈ token, ∃ i j, first.2 = some i ∧ second.2 = some j ∧ i ≠ j

/-- Some token is fused. -/
def Fuses (tokens : List (List Mark)) : Prop := ∃ token ∈ tokens, Fused token

/-! ## The longest operator -/

theorem nativeOperators_chars : nativeOperators.all (·.all isOperatorChar) = true := rfl

theorem isOperatorChar_of_mem {token : List Char} (htoken : token ∈ nativeOperators) {c : Char}
    (hc : c ∈ token) : isOperatorChar c = true :=
  List.all_eq_true.mp (List.all_eq_true.mp nativeOperators_chars token htoken) c hc

private theorem le_foldr_max {token : List Char} {tokens : List (List Char)} (h : token ∈ tokens) :
    token.length ≤ tokens.foldr (fun token n => max token.length n) 0 := by
  induction tokens with
  | nil => cases h
  | cons first rest ih =>
    rw [List.foldr_cons]
    rcases List.mem_cons.mp h with rfl | h
    · exact le_max_left ..
    · exact (ih h).trans (le_max_right ..)

private theorem foldr_max_le {n : Nat} {tokens : List (List Char)}
    (h : ∀ token ∈ tokens, token.length ≤ n) :
    tokens.foldr (fun token n => max token.length n) 0 ≤ n := by
  induction tokens with
  | nil => exact Nat.zero_le n
  | cons first rest ih =>
    rw [List.foldr_cons]
    exact max_le (h _ (.head _)) (ih fun token hm => h token (.tail _ hm))

theorem le_munch {token cs : List Char} (htoken : token ∈ nativeOperators) (h : token <+: cs) :
    token.length ≤ munch cs :=
  le_foldr_max (List.mem_filter.mpr ⟨htoken, List.isPrefixOf_iff_prefix.mpr h⟩)

theorem munch_le {n : Nat} {cs : List Char}
    (h : ∀ token ∈ nativeOperators, token <+: cs → token.length ≤ n) : munch cs ≤ n := by
  refine foldr_max_le fun token htoken => ?_
  obtain ⟨htoken, hprefix⟩ := List.mem_filter.mp htoken
  exact h token htoken (List.isPrefixOf_iff_prefix.mp hprefix)

theorem munch_le_length (cs : List Char) : munch cs ≤ cs.length :=
  munch_le fun _ _ h => h.length_le

/-- Two texts begin with the same operators. -/
theorem munch_congr {cs ds : List Char} (h : ∀ token ∈ nativeOperators, token <+: cs ↔ token <+: ds) :
    munch cs = munch ds :=
  le_antisymm (munch_le fun token htoken hcs => le_munch htoken ((h token htoken).mp hcs))
    (munch_le fun token htoken hds => le_munch htoken ((h token htoken).mpr hds))

/-- No operator reaches into a text that does not begin with the character of one. -/
theorem munch_append_of_head {cs ds : List Char} (h : ∀ c ∈ ds.head?, isOperatorChar c = false) :
    munch (cs ++ ds) = munch cs := by
  refine munch_congr fun token htoken => ⟨fun hprefix => ?_, fun h => h.trans (List.prefix_append ..)⟩
  rcases List.prefix_or_prefix_of_prefix hprefix (List.prefix_append cs ds) with hcs | ⟨more, rfl⟩
  · exact hcs
  cases more with
  | nil => rw [List.append_nil]
  | cons c more =>
    obtain ⟨rest, hrest⟩ := (List.prefix_append_right_inj cs).mp hprefix
    have hhead := h c (by rw [← hrest]; rfl)
    rw [isOperatorChar_of_mem htoken (by simp)] at hhead
    cases hhead

/-- No operator reaches over a character that is part of none. -/
theorem munch_append_of_mem {cs ds : List Char} {c : Char} (hc : c ∈ cs)
    (h : isOperatorChar c = false) : munch (cs ++ ds) = munch cs := by
  refine munch_congr fun token htoken => ⟨fun hprefix => ?_, fun h => h.trans (List.prefix_append ..)⟩
  rcases List.prefix_or_prefix_of_prefix hprefix (List.prefix_append cs ds) with hcs | hcs
  · exact hcs
  · rw [isOperatorChar_of_mem htoken (hcs.subset hc)] at h
    cases h

/-! ## One character read -/

section
variable {mark : Mark} {rest : List Mark}

attribute [local simp] scan

theorem scan_escape (h : mark.1 = '\\') : scan 0 true (mark :: rest) = scan 1 true rest := by
  simp [h]

theorem scan_inside (h : mark.1 ≠ '\\') :
    scan 0 true (mark :: rest) = scan 0 (decide (mark.1 ≠ '"')) rest := by
  simp [h]

theorem scan_opening (h : mark.1 = '"') : scan 0 false (mark :: rest) = scan 0 true rest := by
  simp [h]

theorem scan_plain (h : mark.1 ≠ '"') (hmunch : munch (Mark.chars (mark :: rest)) = 0) :
    scan 0 false (mark :: rest) = scan 0 false rest := by
  simp [h, hmunch]

theorem scan_operator (h : mark.1 ≠ '"') {n : Nat} (hmunch : munch (Mark.chars (mark :: rest)) = n + 1) :
    scan 0 false (mark :: rest) = (mark :: rest.take n) :: scan n false rest := by
  simp [h, hmunch]

end

/-! ## Reading part by part -/

/-- No operator is begun in the first part and ended in the second. -/
def Cut (first second : List Mark) : Prop :=
  ∀ part, part <:+ first → part ≠ [] → munch (Mark.chars (part ++ second)) = munch (Mark.chars part)

theorem cut_of_head {first second : List Mark}
    (h : ∀ mark ∈ second.head?, isOperatorChar mark.1 = false) : Cut first second := by
  intro part _ _
  rw [Mark.chars, List.map_append]
  refine munch_append_of_head fun c hc => ?_
  rw [List.head?_map] at hc
  obtain ⟨mark, hmark, rfl⟩ := Option.mem_map.mp hc
  exact h mark hmark

theorem cut_of_last {first second : List Mark}
    (h : ∀ mark ∈ first.getLast?, isOperatorChar mark.1 = false) : Cut first second := by
  intro part hpart hne
  rw [Mark.chars, List.map_append]
  have hlast : part.getLast hne ∈ first.getLast? := by
    obtain ⟨before, rfl⟩ := hpart
    rw [List.getLast?_append_of_ne_nil _ hne, List.getLast?_eq_some_getLast hne]
    rfl
  exact munch_append_of_mem (List.mem_map_of_mem (List.getLast_mem hne)) (h _ hlast)

/-- Each part is read by itself if no operator reaches from one into the other. Where the reading of
the second begins is told if the first has no quote. -/
theorem scan_append {first second : List Mark} (hcut : Cut first second) (skip : Nat)
    (inString : Bool) (hskip : inString = false → skip ≤ first.length) :
    ∃ skip' inString', (inString' = false → skip' = 0) ∧
      (inString = false → '"' ∉ Mark.chars first → inString' = false) ∧
      scan skip inString (first ++ second) = scan skip inString first ++ scan skip' inString' second := by
  induction first generalizing skip inString with
  | nil => exact ⟨skip, inString, fun h => Nat.le_zero.mp (hskip h), fun h _ => h, rfl⟩
  | cons mark rest ih =>
    have hrest : Cut rest second := fun part hpart => hcut part (hpart.trans (List.suffix_cons ..))
    have hquote (h : '"' ∉ Mark.chars (mark :: rest)) : '"' ∉ Mark.chars rest :=
      fun hm => h (.tail _ hm)
    cases skip with
    | succ skip =>
      obtain ⟨skip', inString', hready, hout, hscan⟩ :=
        ih hrest skip inString fun h => Nat.le_of_succ_le_succ (hskip h)
      exact ⟨skip', inString', hready, fun h hno => hout h (hquote hno), hscan⟩
    | zero =>
      cases inString with
      | true =>
        by_cases hescape : mark.1 = '\\'
        · obtain ⟨skip', inString', hready, -, hscan⟩ := ih hrest 1 true nofun
          refine ⟨skip', inString', hready, nofun, ?_⟩
          rw [List.cons_append, scan_escape hescape, scan_escape hescape, hscan]
        · obtain ⟨skip', inString', hready, -, hscan⟩ :=
            ih hrest 0 (decide (mark.1 ≠ '"')) fun _ => Nat.zero_le _
          refine ⟨skip', inString', hready, nofun, ?_⟩
          rw [List.cons_append, scan_inside hescape, scan_inside hescape, hscan]
      | false =>
        by_cases hopen : mark.1 = '"'
        · obtain ⟨skip', inString', hready, -, hscan⟩ := ih hrest 0 true nofun
          refine ⟨skip', inString', hready, fun _ hno => absurd ?_ hno, ?_⟩
          · rw [← hopen]
            exact .head _
          · rw [List.cons_append, scan_opening hopen, scan_opening hopen, hscan]
        · -- The cut comes in here: the longest operator is the same with the second part behind it.
          have hmunch := hcut (mark :: rest) List.suffix_rfl nofun
          have hlength := munch_le_length (Mark.chars (mark :: rest))
          rw [List.cons_append] at hmunch
          cases hn : munch (Mark.chars (mark :: rest)) with
          | zero =>
            obtain ⟨skip', inString', hready, hout, hscan⟩ := ih hrest 0 false fun _ => Nat.zero_le _
            refine ⟨skip', inString', hready, fun h hno => hout h (hquote hno), ?_⟩
            rw [List.cons_append, scan_plain hopen (hmunch.trans hn), scan_plain hopen hn, hscan]
          | succ n =>
            have hfits : n ≤ rest.length := by
              rw [hn, Mark.chars, List.length_map, List.length_cons] at hlength
              exact Nat.le_of_succ_le_succ hlength
            obtain ⟨skip', inString', hready, hout, hscan⟩ := ih hrest n false fun _ => hfits
            refine ⟨skip', inString', hready, fun h hno => hout h (hquote hno), ?_⟩
            rw [List.cons_append, scan_operator hopen (hmunch.trans hn), scan_operator hopen hn,
              List.take_append_of_le_length hfits, hscan, List.cons_append]

/-- A token is read off the characters. -/
theorem mem_of_mem_scan {marks : List Mark} {skip : Nat} {inString : Bool} {token : List Mark}
    (htoken : token ∈ scan skip inString marks) : ∀ mark ∈ token, mark ∈ marks := by
  induction marks generalizing skip inString with
  | nil => cases htoken
  | cons first rest ih =>
    have hrest {skip' : Nat} {inString' : Bool} (h : token ∈ scan skip' inString' rest) :
        ∀ mark ∈ token, mark ∈ first :: rest := fun mark hm => .tail _ (ih h mark hm)
    cases skip with
    | succ skip => exact hrest htoken
    | zero =>
      cases inString with
      | true =>
        rw [scan] at htoken
        split at htoken
        · exact hrest htoken
        · exact hrest htoken
      | false =>
        rw [scan] at htoken
        split at htoken
        · exact hrest htoken
        · split at htoken
          · exact hrest htoken
          · rcases List.mem_cons.mp htoken with rfl | htoken
            · exact fun mark hm => List.mem_of_mem_take hm
            · exact hrest htoken

/-- Nothing is fused where at most one operator is written. -/
theorem not_fuses_of_single {marks : List Mark} {skip : Nat} {inString : Bool} {number : Nat}
    (h : ∀ mark ∈ marks, ∀ i, mark.2 = some i → i = number) :
    ¬ Fuses (scan skip inString marks) := by
  rintro ⟨token, htoken, first, hfirst, second, hsecond, i, j, hi, hj, hne⟩
  have hmem := mem_of_mem_scan htoken
  exact hne ((h first (hmem first hfirst) i hi).trans (h second (hmem second hsecond) j hj).symm)

theorem not_fuses_singleton (mark : Mark) : ¬ Fuses [[mark]] := by
  rintro ⟨token, htoken, first, hfirst, second, hsecond, i, j, hi, hj, hne⟩
  cases List.mem_singleton.mp htoken
  cases List.mem_singleton.mp hfirst
  cases List.mem_singleton.mp hsecond
  exact hne (Option.some.inj (hi.symm.trans hj))

theorem fuses_append {tokens more : List (List Mark)} :
    Fuses (tokens ++ more) ↔ Fuses tokens ∨ Fuses more := by
  simp only [Fuses, List.mem_append, or_and_right, exists_or]

end NativeLowering
