import Mathlib
import NativeLowering.Json.Reader
import NativeLowering.Json.Writer

/-!
# Reading what was written

A value whose numbers are natural numbers and whose strings and keys denote texts is read back from
its own text, whatever the texts are: `read_write`. The values that encode programs are of this sort
(`Plain`).

Everything is read from the front of a longer text. A number is the one token that does not tell its
own end, so it has to be followed by something that cannot belong to it (`Ends`). The bound on the
steps of the reader is met with twice the number of characters of a value.
-/

set_option autoImplicit false

namespace NativeLowering.Json

/-! ## String literals -/

theorem hexDigit?_hexDigit {n : Nat} (h : n < 16) : hexDigit? (hexDigit n) = some n := by
  interval_cases n <;> rfl

/-- How a character is escaped: with one letter, with its code, or not at all. -/
theorem escapeChar_cases (c : Char) :
    (∃ letter, letter ≠ 'u' ∧ shortEscape? letter = some c ∧ escapeChar c = ['\\', letter]) ∨
    (c.toNat < 0x20 ∧ escapeChar c
      = ['\\', 'u', '0', '0', hexDigit (c.toNat / 16), hexDigit (c.toNat % 16)]) ∨
    (c ≠ '"' ∧ c ≠ '\\' ∧ ¬ c.toNat < 0x20 ∧ escapeChar c = [c]) := by
  unfold escapeChar
  split
  · exact .inl ⟨'"', by decide, rfl, rfl⟩
  · exact .inl ⟨'\\', by decide, rfl, rfl⟩
  · exact .inl ⟨'b', by decide, rfl, rfl⟩
  · exact .inl ⟨'f', by decide, rfl, rfl⟩
  · exact .inl ⟨'n', by decide, rfl, rfl⟩
  · exact .inl ⟨'r', by decide, rfl, rfl⟩
  · exact .inl ⟨'t', by decide, rfl, rfl⟩
  · rename_i hquote hbackslash _ _ _ _ _
    by_cases hcontrol : c.toNat < 0x20
    · exact .inr (.inl ⟨hcontrol, if_pos hcontrol⟩)
    · exact .inr (.inr ⟨hquote, hbackslash, hcontrol, if_neg hcontrol⟩)

theorem literalBody_cons {c : Char} (hquote : c ≠ '"') (hbackslash : c ≠ '\\')
    (hcontrol : ¬ c.toNat < 0x20) (cs : List Char) :
    literalBody (c :: cs) = (literalBody cs).map fun p => (c :: p.1, p.2) := by
  rw [literalBody]
  · exact if_neg hcontrol
  · exact hquote
  · rintro _ _ rfl
    exact absurd rfl hbackslash

/-- An escape is passed over as a whole in the search for the closing quote. -/
theorem literalBody_escapeChar (c : Char) (cs : List Char) :
    literalBody (escapeChar c ++ cs)
      = (literalBody cs).map fun p => (escapeChar c ++ p.1, p.2) := by
  rcases escapeChar_cases c with ⟨letter, -, -, heq⟩ | ⟨hcontrol, heq⟩ | ⟨hq, hb, hcontrol, heq⟩
  · rw [heq]
    rfl
  · have hplain {n : Nat} (h : n < 16) : hexDigit n ≠ '"' ∧ hexDigit n ≠ '\\' ∧
        ¬ (hexDigit n).toNat < 0x20 := by
      interval_cases n <;> decide
    obtain ⟨hq, hb, hc⟩ := hplain (show c.toNat / 16 < 16 by omega)
    obtain ⟨hq', hb', hc'⟩ := hplain (show c.toNat % 16 < 16 by omega)
    rw [heq]
    simp only [List.cons_append, List.nil_append, literalBody]
    rw [literalBody_cons (by decide) (by decide) (by decide),
      literalBody_cons (by decide) (by decide) (by decide), literalBody_cons hq hb hc,
      literalBody_cons hq' hb' hc']
    cases literalBody cs with
    | none => rfl
    | some p => rfl
  · rw [heq]
    exact literalBody_cons hq hb hcontrol cs

/-- The piece of a literal stands for the character. -/
inductive Stands (c : Char) : Piece → Prop
  | char : Stands c (.char c)
  | code (h : c.toNat < 0x20) : Stands c (.code c.toNat)

theorem pieces?_escapeChar (c : Char) (cs : List Char) :
    ∃ piece, Stands c piece ∧ pieces? (escapeChar c ++ cs) = (pieces? cs).map (piece :: ·) := by
  rcases escapeChar_cases c with ⟨letter, hu, hletter, heq⟩ | ⟨hcontrol, heq⟩ | ⟨-, hb, -, heq⟩
  · refine ⟨.char c, .char, ?_⟩
    rw [heq, List.cons_append, List.cons_append, List.nil_append, pieces?]
    · rw [hletter]
      cases pieces? cs with
      | none => rfl
      | some tail => rfl
    · rintro _ _ _ _ _ rfl
      exact absurd rfl hu
  · refine ⟨.code c.toNat, .code hcontrol, ?_⟩
    have hcode : hexCode? '0' '0' (hexDigit (c.toNat / 16)) (hexDigit (c.toNat % 16))
        = some c.toNat := by
      have hzero : hexDigit? '0' = some 0 := rfl
      simp only [hexCode?, hzero, hexDigit?_hexDigit (show c.toNat / 16 < 16 by omega),
        hexDigit?_hexDigit (show c.toNat % 16 < 16 by omega), bind, Option.bind, pure]
      congr 1
      omega
    rw [heq]
    simp only [List.cons_append, List.nil_append, pieces?, hcode]
    cases pieces? cs with
    | none => rfl
    | some tail => rfl
  · refine ⟨.char c, .char, ?_⟩
    rw [heq, List.singleton_append, pieces?]
    · exact if_neg hb
    · rintro _ _ _ _ _ rfl
      exact absurd rfl hb
    · rintro _ _ rfl
      exact absurd rfl hb

theorem piecesText?_cons {c : Char} {piece : Piece} (h : Stands c piece) (rest : List Piece) :
    piecesText? (piece :: rest) = (piecesText? rest).map (c :: ·) := by
  cases h with
  | char => rfl
  | code hcontrol =>
    have hlead : isLead c.toNat = false := by
      simp only [isLead, Bool.and_eq_false_iff, decide_eq_false_iff_not]
      omega
    have htrail : isTrail c.toNat = false := by
      simp only [isTrail, Bool.and_eq_false_iff, decide_eq_false_iff_not]
      omega
    cases rest with
    | nil => simp [piecesText?, hlead, htrail, Char.ofNat_toNat]
    | cons other rest =>
      cases other with
      | char other => simp [piecesText?, hlead, htrail, Char.ofNat_toNat]
      | code other => simp [piecesText?, hlead, htrail, Char.ofNat_toNat]

theorem literal?_escaped (text : String) (rest : List Char) :
    literal? (text.toList.flatMap escapeChar ++ '"' :: rest) = some (some text, rest) := by
  obtain ⟨text, rfl⟩ : ∃ cs, text = String.ofList cs := ⟨text.toList, String.ofList_toList.symm⟩
  rw [String.toList_ofList]
  have hbody : literalBody (text.flatMap escapeChar ++ '"' :: rest)
      = some (text.flatMap escapeChar, rest) := by
    induction text with
    | nil => rfl
    | cons c text ih =>
      rw [List.flatMap_cons, List.append_assoc, literalBody_escapeChar, ih]
      rfl
  have hpieces : ∃ pieces, pieces? (text.flatMap escapeChar) = some pieces ∧
      piecesText? pieces = some text := by
    clear hbody
    induction text with
    | nil => exact ⟨[], rfl, rfl⟩
    | cons c text ih =>
      obtain ⟨pieces, hpieces, htext⟩ := ih
      obtain ⟨piece, hstands, hpiece⟩ := pieces?_escapeChar c (text.flatMap escapeChar)
      refine ⟨piece :: pieces, ?_, ?_⟩
      · rw [List.flatMap_cons, hpiece, hpieces]
        rfl
      · rw [piecesText?_cons hstands, htext]
        rfl
  obtain ⟨pieces, hpieces, htext⟩ := hpieces
  simp only [literal?, hbody, hpieces, htext, bind, Option.bind, Option.map, pure]

/-! ## Numbers -/

/-- What follows a number and is no part of it: nothing, or the end of what the number stands in. -/
def Ends (rest : List Char) : Prop := ∀ c ∈ rest.head?, c = ',' ∨ c = ']' ∨ c = '\x7d'

theorem toDigits_head {n : Nat} (h : n ≠ 0) : (Nat.toDigits 10 n).head? ≠ some '0' := by
  induction n using Nat.strongRecOn with
  | ind n ih =>
    rw [Nat.toDigits_eq_if (by decide)]
    split
    · rename_i hsmall
      interval_cases n <;> simp_all [Nat.digitChar]
    · rename_i hlarge
      have hne : n / 10 ≠ 0 := by omega
      have hdigits : Nat.toDigits 10 (n / 10) ≠ [] := by
        rw [Nat.toDigits_eq_if (by decide)]
        split <;> simp
      rw [List.head?_append_of_ne_nil _ hdigits]
      exact ih (n / 10) (by omega) hne

theorem toDigits_ne_nil (n : Nat) : Nat.toDigits 10 n ≠ [] := by
  rw [Nat.toDigits_eq_if (by decide)]
  split <;> simp

theorem spanDigits_append {digits rest : List Char} (hdigits : ∀ c ∈ digits, c.isDigit = true)
    (hends : Ends rest) : spanDigits (digits ++ rest) = (digits, rest) := by
  have hrest : rest.span Char.isDigit = ([], rest) := by
    cases rest with
    | nil => rfl
    | cons c rest =>
      have hc : c.isDigit = false := by
        rcases hends c rfl with rfl | rfl | rfl <;> rfl
      simp [List.span_eq_takeWhile_dropWhile, hc]
  unfold spanDigits
  rw [List.span_eq_takeWhile_dropWhile] at hrest ⊢
  obtain ⟨htake, hdrop⟩ := Prod.mk.inj hrest
  rw [List.takeWhile_append_of_pos hdigits, List.dropWhile_append_of_pos hdigits, htake, hdrop,
    List.append_nil]

theorem fractionPart?_ends {rest : List Char} (hends : Ends rest) :
    fractionPart? rest = some ([], rest) := by
  cases rest with
  | nil => rfl
  | cons c rest =>
    rcases hends c rfl with rfl | rfl | rfl <;> rfl

theorem exponentPart?_ends {rest : List Char} (hends : Ends rest) :
    exponentPart? rest = some ([], rest) := by
  cases rest with
  | nil => rfl
  | cons c rest =>
    rcases hends c rfl with rfl | rfl | rfl <;> rfl

theorem wholePart?_toDigits (n : Nat) {rest : List Char} (hends : Ends rest) :
    wholePart? (Nat.toDigits 10 n ++ rest) = some (Nat.toDigits 10 n, rest) := by
  have hspan : spanDigits (Nat.toDigits 10 n ++ rest) = (Nat.toDigits 10 n, rest) :=
    spanDigits_append (fun c hc => Nat.isDigit_of_mem_toDigits (by decide) (by decide) hc) hends
  by_cases hn : n = 0
  · subst hn
    rfl
  · have hhead : (Nat.toDigits 10 n).head? ≠ some '0' := toDigits_head hn
    cases hdigits : Nat.toDigits 10 n with
    | nil => exact absurd hdigits (toDigits_ne_nil n)
    | cons d ds =>
      rw [hdigits] at hspan hhead
      rw [List.cons_append, wholePart?]
      · rw [← List.cons_append, hspan]
      · rintro _ heq
        rw [List.cons.injEq] at heq
        exact hhead (by rw [heq.1]; rfl)

theorem repr_head (n : Nat) :
    ∃ c cs, n.repr.toList = c :: cs ∧ c.isDigit = true := by
  rw [Nat.toList_repr]
  cases hdigits : Nat.toDigits 10 n with
  | nil => exact absurd hdigits (toDigits_ne_nil n)
  | cons d ds =>
    refine ⟨d, ds, rfl, ?_⟩
    apply Nat.isDigit_of_mem_toDigits (by decide : 0 < 10) (by decide)
    rw [hdigits]
    exact List.mem_cons_self

theorem number?_repr (n : Nat) {rest : List Char} (hends : Ends rest) :
    number? (n.repr.toList ++ rest) = some (n.repr, rest) := by
  have hsign : minusSign (n.repr.toList ++ rest) = ([], n.repr.toList ++ rest) := by
    obtain ⟨c, cs, hrepr, hc⟩ := repr_head n
    rw [hrepr, List.cons_append, minusSign]
    rintro _ heq
    rw [List.cons.injEq] at heq
    rw [heq.1] at hc
    cases hc
  have hwhole : wholePart? (n.repr.toList ++ rest) = some (n.repr.toList, rest) := by
    rw [Nat.toList_repr]
    exact wholePart?_toDigits n hends
  simp only [number?, hsign, hwhole, fractionPart?_ends hends, exponentPart?_ends hends, bind,
    Option.bind, pure, List.nil_append, List.append_nil, String.ofList_toList]

/-! ## Values -/

mutual

/-- Numbers are natural numbers, and strings and keys denote texts. -/
def Plain : Json → Prop
  | .null => True
  | .bool _ => True
  | .number spelling => ∃ n : Nat, spelling = n.repr
  | .string text => text.isSome = true
  | .array items => PlainItems items
  | .object members => PlainMembers members

def PlainItems : List Json → Prop
  | [] => True
  | item :: rest => item.Plain ∧ PlainItems rest

def PlainMembers : List (Option String × Json) → Prop
  | [] => True
  | (key, value) :: rest => key.isSome = true ∧ value.Plain ∧ PlainMembers rest

end

/-! What is written, with what follows it. -/

attribute [local simp] chars itemChars memberChars

theorem array_append (items : List Json) (rest : List Char) :
    chars (.array items) ++ rest = '[' :: (itemChars items ++ ']' :: rest) := by
  rw [chars, List.cons_append, List.cons_append, List.append_assoc, List.singleton_append]

theorem object_append (members : List (Option String × Json)) (rest : List Char) :
    chars (.object members) ++ rest = '\x7b' :: (memberChars members ++ '\x7d' :: rest) := by
  rw [chars, List.cons_append, List.cons_append, List.append_assoc, List.singleton_append]

theorem itemChars_cons (item other : Json) (items : List Json) :
    itemChars (item :: other :: items) = chars item ++ ',' :: itemChars (other :: items) := by
  rw [itemChars]
  nofun

theorem literal_append (text : String) (rest : List Char) :
    literal (some text) ++ rest = '"' :: (text.toList.flatMap escapeChar ++ '"' :: rest) := by
  rw [literal, List.cons_append, List.cons_append, List.append_assoc, List.singleton_append]

theorem memberChars_cons (key : Option String) (value : Json) (other : Option String × Json)
    (members : List (Option String × Json)) :
    memberChars ((key, value) :: other :: members)
      = literal key ++ ':' :: (chars value ++ ',' :: memberChars (other :: members)) := by
  rw [memberChars, List.append_assoc, List.cons_append]
  nofun

theorem skipSpace_cons {c : Char} (h : isSpace c = false) (cs : List Char) :
    skipSpace (c :: cs) = c :: cs := by
  rw [skipSpace, List.dropWhile_cons, h]
  rfl

theorem isSpace_of_isDigit {c : Char} (h : c.isDigit = true) : isSpace c = false := by
  by_contra hspace
  simp only [Bool.not_eq_false, isSpace, Bool.or_eq_true, beq_iff_eq] at hspace
  rcases hspace with ((rfl | rfl) | rfl) | rfl <;> cases h

/-- No value starts with a space or with the end of an array. -/
theorem chars_head {value : Json} (h : value.Plain) :
    ∃ c cs, chars value = c :: cs ∧ isSpace c = false ∧ c ≠ ']' := by
  cases value with
  | null => exact ⟨_, _, rfl, rfl, by decide⟩
  | bool value => cases value <;> exact ⟨_, _, rfl, rfl, by decide⟩
  | number spelling =>
    obtain ⟨n, rfl⟩ := h
    obtain ⟨c, cs, hrepr, hc⟩ := repr_head n
    refine ⟨c, cs, by rw [chars, hrepr], isSpace_of_isDigit hc, ?_⟩
    rintro rfl
    cases hc
  | string text =>
    cases text with
    | none => cases h
    | some text => exact ⟨_, _, by rw [chars, literal]; rfl, rfl, by decide⟩
  | array items => exact ⟨_, _, by rw [chars]; rfl, rfl, by decide⟩
  | object members => exact ⟨_, _, by rw [chars]; rfl, rfl, by decide⟩

-- The equations of the reader are made here, once for all forms.
attribute [local simp] value? items? members?

theorem value?_number {n : Nat} {c : Char} {cs : List Char} (h : c.isDigit = true) :
    value? (n + 1) (c :: cs) = (number? (c :: cs)).map fun p => (.number p.1, p.2) := by
  rw [value?, skipSpace_cons (isSpace_of_isDigit h)]
  split
  case h_7 => rfl
  all_goals
    rename_i heq
    cases heq
    cases h

theorem value?_array {n : Nat} {c : Char} {cs : List Char} (hspace : isSpace c = false)
    (hclose : c ≠ ']') :
    value? (n + 1) ('[' :: c :: cs) = (items? n (c :: cs)).map fun p => (.array p.1, p.2) := by
  rw [value?, skipSpace_cons (by decide)]
  simp only [skipSpace_cons hspace]
  split
  · rename_i heq
    cases heq
    exact absurd rfl hclose
  · rfl

theorem value?_object {n : Nat} (cs : List Char) :
    value? (n + 1) ('\x7b' :: '"' :: cs)
      = (members? n ('"' :: cs)).map fun p => (.object p.1, p.2) := by
  rw [value?, skipSpace_cons (by decide)]
  simp only [skipSpace_cons (show isSpace '"' = false by decide)]
  rfl

theorem items?_last {n : Nat} {cs rest : List Char} {item : Json}
    (h : value? n cs = some (item, ']' :: rest)) : items? (n + 1) cs = some ([item], rest) := by
  rw [items?, h]
  simp only [skipSpace_cons (show isSpace ']' = false by decide)]

theorem items?_more {n : Nat} {cs rest after : List Char} {item : Json} {items : List Json}
    (h : value? n cs = some (item, ',' :: rest)) (hrest : items? n rest = some (items, after)) :
    items? (n + 1) cs = some (item :: items, after) := by
  rw [items?, h]
  simp only [skipSpace_cons (show isSpace ',' = false by decide), hrest, Option.map]

theorem members?_last {n : Nat} {cs more rest : List Char} {key : Option String} {item : Json}
    (hkey : literal? cs = some (key, ':' :: more))
    (h : value? n more = some (item, '\x7d' :: rest)) :
    members? (n + 1) ('"' :: cs) = some ([(key, item)], rest) := by
  rw [members?, skipSpace_cons (by decide)]
  simp only [hkey, skipSpace_cons (show isSpace ':' = false by decide), h,
    skipSpace_cons (show isSpace '\x7d' = false by decide)]

theorem members?_more {n : Nat} {cs more rest after : List Char} {key : Option String} {item : Json}
    {members : List (Option String × Json)} (hkey : literal? cs = some (key, ':' :: more))
    (h : value? n more = some (item, ',' :: rest))
    (hrest : members? n rest = some (members, after)) :
    members? (n + 1) ('"' :: cs) = some ((key, item) :: members, after) := by
  rw [members?, skipSpace_cons (by decide)]
  simp only [hkey, skipSpace_cons (show isSpace ':' = false by decide), h,
    skipSpace_cons (show isSpace ',' = false by decide), hrest, Option.map]

theorem ends_cons {c : Char} (h : c = ',' ∨ c = ']' ∨ c = '\x7d') (rest : List Char) :
    Ends (c :: rest) := by
  rintro _ ⟨⟩
  exact h

mutual

theorem value?_chars : ∀ value : Json, value.Plain → ∀ {n : Nat} {rest : List Char},
    2 * (chars value).length ≤ n → Ends rest → value? n (chars value ++ rest) = some (value, rest)
  -- No value is written with nothing, so there is fuel to begin with. An item of an array is read two
  -- levels further down, where at least the bracket of the array is gone.
  | .null, _, 0, rest, hn, _ => by simp at hn
  | .null, _, n + 1, rest, hn, _ => rfl
  | .bool true, _, 0, rest, hn, _ => by simp at hn
  | .bool true, _, n + 1, rest, hn, _ => rfl
  | .bool false, _, 0, rest, hn, _ => by simp at hn
  | .bool false, _, n + 1, rest, hn, _ => rfl
  | .number spelling, h, n, rest, hn, hends => by
    obtain ⟨k, rfl⟩ := h
    obtain ⟨c, cs, hrepr, hc⟩ := repr_head k
    rw [chars, hrepr] at hn ⊢
    obtain ⟨m, rfl⟩ : ∃ m, n = m + 1 := ⟨n - 1, by simp at hn; omega⟩
    rw [List.cons_append, value?_number hc, ← List.cons_append, ← hrepr, number?_repr k hends]
    rfl
  | .string none, h, n, rest, hn, _ => nomatch h
  | .string (some text), _, n, rest, hn, _ => by
    obtain ⟨m, rfl⟩ : ∃ m, n = m + 1 := ⟨n - 1, by simp [literal] at hn; omega⟩
    rw [chars, literal_append, value?, skipSpace_cons (by decide)]
    simp only [literal?_escaped, Option.map]
  | .array [], _, 0, rest, hn, _ => by simp at hn
  | .array [], _, n + 1, rest, hn, _ => rfl
  | .array (item :: items), h, n, rest, hn, _ => by
    obtain ⟨m, rfl⟩ : ∃ m, n = m + 1 := ⟨n - 1, by simp at hn; omega⟩
    obtain ⟨c, cs, hfirst, hspace, hclose⟩ : ∃ c cs, itemChars (item :: items) = c :: cs ∧
        isSpace c = false ∧ c ≠ ']' := by
      obtain ⟨c, cs, hitem, hc⟩ := chars_head h.1
      cases items with
      | nil => exact ⟨c, cs, by rw [itemChars, hitem], hc⟩
      | cons other items => exact ⟨c, _, by rw [itemChars_cons, hitem]; rfl, hc⟩
    have hitems : items? m (itemChars (item :: items) ++ ']' :: rest)
        = some (item :: items, rest) := by
      refine items?_itemChars (item :: items) h (List.cons_ne_nil _ _) ?_
      simp only [chars, List.length_cons, List.length_append] at hn
      omega
    rw [array_append]
    rw [hfirst, List.cons_append] at hitems ⊢
    rw [value?_array hspace hclose, hitems]
    rfl
  | .object [], _, 0, rest, hn, _ => by simp at hn
  | .object [], _, n + 1, rest, hn, _ => rfl
  | .object ((key, value) :: members), h, n, rest, hn, _ => by
    obtain ⟨m, rfl⟩ : ∃ m, n = m + 1 := ⟨n - 1, by simp at hn; omega⟩
    obtain ⟨cs, hfirst⟩ : ∃ cs, memberChars ((key, value) :: members) = '"' :: cs := by
      obtain ⟨text, rfl⟩ := Option.isSome_iff_exists.mp h.1
      cases members with
      | nil => exact ⟨_, by rw [memberChars, literal_append]⟩
      | cons other members => exact ⟨_, by rw [memberChars_cons, literal_append]⟩
    have hmembers : members? m (memberChars ((key, value) :: members) ++ '\x7d' :: rest)
        = some ((key, value) :: members, rest) := by
      refine members?_memberChars ((key, value) :: members) h (List.cons_ne_nil _ _) ?_
      simp only [chars, List.length_cons, List.length_append] at hn
      omega
    rw [object_append]
    rw [hfirst, List.cons_append] at hmembers ⊢
    rw [value?_object, hmembers]
    rfl

theorem items?_itemChars : ∀ items : List Json, PlainItems items → items ≠ [] →
    ∀ {n : Nat} {rest : List Char}, 2 * (itemChars items).length + 1 ≤ n →
    items? n (itemChars items ++ ']' :: rest) = some (items, rest)
  | [], _, hne, _, _, _ => absurd rfl hne
  | [item], h, _, n, rest, hn => by
    obtain ⟨m, rfl⟩ : ∃ m, n = m + 1 := ⟨n - 1, by omega⟩
    rw [itemChars] at hn ⊢
    exact items?_last (value?_chars item h.1 (by omega) (ends_cons (by simp) rest))
  | item :: other :: items, h, _, n, rest, hn => by
    obtain ⟨m, rfl⟩ : ∃ m, n = m + 1 := ⟨n - 1, by omega⟩
    rw [itemChars_cons, List.length_append, List.length_cons] at hn
    rw [itemChars_cons, List.append_assoc, List.cons_append]
    exact items?_more (value?_chars item h.1 (by omega) (ends_cons (by simp) _))
      (items?_itemChars (other :: items) h.2 (List.cons_ne_nil _ _) (by omega))

theorem members?_memberChars : ∀ members : List (Option String × Json), PlainMembers members →
    members ≠ [] → ∀ {n : Nat} {rest : List Char}, 2 * (memberChars members).length + 1 ≤ n →
    members? n (memberChars members ++ '\x7d' :: rest) = some (members, rest)
  | [], _, hne, _, _, _ => absurd rfl hne
  | (none, value) :: members, h, _, n, rest, hn => nomatch h.1
  | [(some key, value)], h, _, n, rest, hn => by
    obtain ⟨m, rfl⟩ : ∃ m, n = m + 1 := ⟨n - 1, by omega⟩
    rw [memberChars, List.length_append, List.length_cons] at hn
    rw [memberChars, List.append_assoc, List.cons_append, literal_append]
    exact members?_last (literal?_escaped key _)
      (value?_chars value h.2.1 (by omega) (ends_cons (by simp) rest))
  | (some key, value) :: other :: members, h, _, n, rest, hn => by
    obtain ⟨m, rfl⟩ : ∃ m, n = m + 1 := ⟨n - 1, by omega⟩
    rw [memberChars_cons, List.length_append, List.length_cons, List.length_append,
      List.length_cons] at hn
    rw [memberChars_cons, List.append_assoc, List.cons_append, List.append_assoc, List.cons_append,
      literal_append]
    exact members?_more (literal?_escaped key _)
      (value?_chars value h.2.1 (by omega) (ends_cons (by simp) _))
      (members?_memberChars (other :: members) h.2.2 (List.cons_ne_nil _ _) (by omega))

end

/-- **A written value is read back.** -/
theorem read_write {value : Json} (h : value.Plain) : read (write value) = some value := by
  have hvalue : value? (2 * (chars value).length + 2) (chars value) = some (value, []) := by
    have hends : Ends [] := nofun
    have hread := value?_chars value h (Nat.le_add_right (2 * (chars value).length) 2) hends
    rwa [List.append_nil] at hread
  rw [read, write, String.toList_ofList]
  simp only [hvalue]
  rfl

end NativeLowering.Json
