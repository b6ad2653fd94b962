import NativeLowering.Proofs.Emit.ExprText
import NativeLowering.Proofs.Emit.Munch

/-!
# Texts in pieces

The text of an expression is a sequence of pieces: words, string literals, brackets and blanks, and
the operators. Pieces that may stand side by side in such a text are `Beside` each other, and that
rules out most pairs of operators: what can be next to an operator in front of its operand is another
one of that sort only. Of these only two equal signs are read as one (`fuses_marksFrom`).
-/

set_option autoImplicit false

namespace NativeLowering

open Vocabulary (UnaryOp)

/-- A piece of the text of an expression. -/
inductive Piece where
  /-- A name, a number, a keyword, or a type. -/
  | word (text : String)
  /-- A string literal. -/
  | quoted (value : String)
  /-- Brackets, commas and blanks. -/
  | gap (text : String)
  /-- An operator in front of its operand. -/
  | unary (op : UnaryOp)
  /-- The operator that takes an address, in front of its operand. -/
  | address
  /-- An operator between two parts. -/
  | joint (text : String)
  deriving DecidableEq

namespace Piece

def text : Piece → String
  | .word text | .gap text | .joint text => text
  | .quoted value => stringLiteral value
  | .unary op => op.spelling
  | .address => "&"

/-- The character of an operator in front of its operand. -/
def front? : Piece → Option Char
  | .unary .neg => some '-'
  | .unary .plus => some '+'
  | .unary .not => some '!'
  | .unary .bitNot => some '~'
  | .address => some '&'
  | _ => none

def isJoint : Piece → Bool
  | .joint _ => true
  | _ => false

def isOperator (piece : Piece) : Bool := piece.front?.isSome || piece.isJoint

/-- The second piece may stand right behind the first. -/
def Beside (first second : Piece) : Prop :=
  match first with
  | .gap _ => True
  | .unary _ => second.isJoint = false
  | .address | .joint _ => second.isOperator = false
  | .word _ | .quoted _ => second.front? = none

/-- Gaps are not empty and have no character of an operator. Neither they nor operators have a
quote. -/
def Sound : Piece → Prop
  | .gap text => text ≠ "" ∧ ∀ c ∈ text.toList, isOperatorChar c = false ∧ c ≠ '"'
  | .joint text => '"' ∉ text.toList
  | _ => True

/-- A word does not begin with the character of an operator. -/
def StartsPlain : Piece → Prop
  | .word text => ∃ c ∈ text.toList.head?, isOperatorChar c = false
  | _ => True

/-- There is no quote in a word. -/
def Unquoted : Piece → Prop
  | .word text => '"' ∉ text.toList
  | _ => True

/-- The characters of the piece with a number, which only operators pass on. -/
def marks (number : Nat) (piece : Piece) : List Mark :=
  piece.text.toList.map (·, if piece.isOperator then some number else none)

end Piece

/-- Pieces, one after the other. -/
def spelled : List Piece → String
  | [] => ""
  | piece :: rest => piece.text ++ spelled rest

/-- The characters of pieces, with the pieces numbered. -/
def marksFrom : Nat → List Piece → List Mark
  | _, [] => []
  | number, piece :: rest => piece.marks number ++ marksFrom (number + 1) rest

/-- The same sign is written twice in a row. -/
def Doubled (pieces : List Piece) : Prop :=
  ∃ sign, (sign = UnaryOp.neg ∨ sign = .plus) ∧ [.unary sign, .unary sign] <:+: pieces

/-! ## Characters of pieces -/

@[simp] theorem spelled_append (pieces more : List Piece) :
    spelled (pieces ++ more) = spelled pieces ++ spelled more := by
  induction pieces with
  | nil => simp [spelled]
  | cons piece rest ih => simp [spelled, ih, String.append_assoc]

theorem chars_marksFrom (number : Nat) (pieces : List Piece) :
    Mark.chars (marksFrom number pieces) = (spelled pieces).toList := by
  induction pieces generalizing number with
  | nil => rfl
  | cons piece rest ih =>
    rw [marksFrom, Mark.chars, List.map_append, ← Mark.chars, ← Mark.chars, ih, spelled,
      String.toList_append]
    simp [Piece.marks, Mark.chars, Function.comp_def]

namespace Piece

theorem chars_marks (number : Nat) (piece : Piece) :
    Mark.chars (piece.marks number) = piece.text.toList := by
  simp [marks, Mark.chars, Function.comp_def]

theorem marks_of_front {piece : Piece} {c : Char} (h : piece.front? = some c) (number : Nat) :
    piece.marks number = [(c, some number)] := by
  have hoperator : piece.isOperator = true := by rw [isOperator, h]; rfl
  have htext : piece.text.toList = [c] := by
    unfold front? at h
    split at h
    · cases h; rfl
    · cases h; rfl
    · cases h; rfl
    · cases h; rfl
    · cases h; rfl
    · cases h
  simp [marks, hoperator, htext]

theorem number_of_mem_marks {number i : Nat} {piece : Piece} {mark : Mark}
    (hmark : mark ∈ piece.marks number) (hi : mark.2 = some i) : piece.isOperator = true ∧ i = number := by
  obtain ⟨c, -, rfl⟩ := List.mem_map.mp hmark
  dsimp only at hi
  split at hi
  · rename_i hoperator
    exact ⟨hoperator, (Option.some.inj hi).symm⟩
  · cases hi

theorem front?_injective {piece other : Piece} {c : Char} (h : piece.front? = some c)
    (hother : other.front? = some c) : piece = other := by
  unfold front? at h hother
  split at h <;> cases h <;> split at hother <;>
    first
    | rfl
    | exact absurd (Option.some.inj hother) (by decide)
    | cases hother

/-- What is no operator begins with a character that is part of none. -/
theorem head_of_plain {piece : Piece} (hplain : piece.isOperator = false) (hsound : piece.Sound)
    (hstarts : piece.StartsPlain) : ∃ c rest, piece.text.toList = c :: rest ∧ isOperatorChar c = false := by
  cases piece with
  | word text =>
    obtain ⟨c, hc, hplain⟩ := hstarts
    obtain ⟨rest, hrest⟩ := List.head?_eq_some_iff.mp hc
    exact ⟨c, rest, hrest, hplain⟩
  | quoted value => exact ⟨'"', _, String.toList_ofList, by decide⟩
  | gap text =>
    obtain ⟨hne, hchars⟩ := hsound
    cases htext : text.toList with
    | nil => exact absurd (String.toList_eq_nil_iff.mp htext) hne
    | cons c rest => exact ⟨c, rest, htext, (hchars c (by rw [htext]; exact .head _)).1⟩
  | unary op => cases op <;> cases hplain
  | address => cases hplain
  | joint text => cases hplain

/-- What is no operator has a quote only if it is a string literal. -/
theorem quoted_or_clear {piece : Piece} (hplain : piece.isOperator = false) (hsound : piece.Sound)
    (hunquoted : piece.Unquoted) : (∃ value, piece = .quoted value) ∨ '"' ∉ piece.text.toList := by
  cases piece with
  | quoted value => exact .inl ⟨value, rfl⟩
  | word text => exact .inr hunquoted
  | gap text => exact .inr fun hquote => (hsound.2 _ hquote).2 rfl
  | unary op => cases op <;> cases hplain
  | address | joint => cases hplain

end Piece

/-- No operator reaches into pieces that do not begin with one. -/
theorem plain_marksFrom {pieces : List Piece} (hhead : ∀ piece ∈ pieces.head?, piece.isOperator = false)
    (hsound : ∀ piece ∈ pieces, piece.Sound) (hstarts : ∀ piece ∈ pieces, piece.StartsPlain)
    (number : Nat) : ∀ mark ∈ (marksFrom number pieces).head?, isOperatorChar mark.1 = false := by
  cases pieces with
  | nil => exact nofun
  | cons piece rest =>
    obtain ⟨c, more, htext, hc⟩ := Piece.head_of_plain (hhead piece rfl) (hsound piece (.head _))
      (hstarts piece (.head _))
    intro mark hmark
    simp only [marksFrom, Piece.marks, htext, List.map_cons, List.cons_append, List.head?_cons,
      Option.mem_some_iff] at hmark
    rw [← hmark]
    exact hc

/-! ## Reading pieces -/

/-- The piece is a sign, and the same sign comes next. -/
def SignAgain (piece : Piece) (rest : List Piece) : Prop :=
  ∃ sign, (sign = UnaryOp.neg ∨ sign = .plus) ∧ piece = .unary sign ∧
    rest.head? = some (.unary sign)

theorem doubled_cons {piece : Piece} {rest : List Piece} :
    Doubled (piece :: rest) ↔ SignAgain piece rest ∨ Doubled rest := by
  simp only [Doubled, SignAgain, List.infix_cons_iff, and_or_left, exists_or]
  refine or_congr_left (exists_congr fun sign => and_congr_right fun _ => ?_)
  rw [List.cons_prefix_cons, eq_comm]
  refine and_congr_right fun _ => ?_
  cases rest with
  | nil => simp
  | cons second rest => simp [List.cons_prefix_cons, eq_comm]

theorem doubled_cons_of_ne {piece : Piece} {rest : List Piece}
    (h : ∀ sign, piece ≠ .unary sign) : Doubled (piece :: rest) ↔ Doubled rest := by
  rw [doubled_cons]
  exact or_iff_right fun ⟨sign, _, hpiece, _⟩ => h sign hpiece

theorem doubled_cons_of_plain {piece : Piece} {rest : List Piece}
    (hplain : piece.isOperator = false) : Doubled (piece :: rest) ↔ Doubled rest :=
  doubled_cons_of_ne fun sign hsign => by
    rw [hsign] at hplain
    cases sign <;> cases hplain

/-- The characters of operators in front of an operand. -/
def frontChars : List Char := ['-', '+', '!', '~', '&']

/-- What is read as one and begins with two of these has the same twice. -/
theorem nativeOperators_of_frontChars :
    nativeOperators.filter (fun token => token.length != 1 && (token.take 2).all frontChars.contains)
      = [['+', '+'], ['-', '-'], ['&', '&']] := rfl

theorem front_mem {piece : Piece} {c : Char} (h : piece.front? = some c) :
    c ∈ frontChars ∧ [c] ∈ nativeOperators ∧ c ≠ '"' ∧ c ≠ '\\' := by
  unfold Piece.front? at h
  split at h
  · cases h; decide
  · cases h; decide
  · cases h; decide
  · cases h; decide
  · cases h; decide
  · cases h

/-- An operator in front of something else is read alone. -/
theorem munch_front {piece : Piece} {c : Char} (hpiece : piece.front? = some c) {cs : List Char}
    (h : ∀ d ∈ cs.head?, isOperatorChar d = false ∨
      d ∈ frontChars ∧ ¬ (d = c ∧ (c = '-' ∨ c = '+' ∨ c = '&'))) : munch (c :: cs) = 1 := by
  obtain ⟨hfront, hsingle, -⟩ := front_mem hpiece
  refine le_antisymm (munch_le fun token htoken hprefix => ?_) (le_munch hsingle (by simp))
  rcases token with _ | ⟨a, _ | ⟨b, more⟩⟩
  · exact Nat.zero_le 1
  · exact le_refl 1
  obtain ⟨rfl, rest, rfl⟩ := List.cons_prefix_cons.mp hprefix
  exfalso
  rcases h b rfl with hplain | ⟨hsecond, hne⟩
  · rw [isOperatorChar_of_mem htoken (by simp)] at hplain
    cases hplain
  · have hpair : a :: b :: more ∈ nativeOperators.filter
        (fun token => token.length != 1 && (token.take 2).all frontChars.contains) :=
      List.mem_filter.mpr ⟨htoken, by simp [hfront, hsecond]⟩
    rw [nativeOperators_of_frontChars] at hpair
    simp only [List.mem_cons, List.cons.injEq, List.not_mem_nil, or_false] at hpair
    rcases hpair with ⟨rfl, rfl, -⟩ | ⟨rfl, rfl, -⟩ | ⟨rfl, rfl, -⟩
    · exact hne ⟨rfl, by simp⟩
    · exact hne ⟨rfl, by simp⟩
    · exact hne ⟨rfl, by simp⟩

/-- The first part has no fused token by itself, and none reaches from it into the second. -/
structure Passed (first second : List Mark) : Prop where
  cut : Cut first second
  single : ∃ number, ∀ mark ∈ first, ∀ i, mark.2 = some i → i = number

namespace Passed

variable {first second : List Mark} (h : Passed first second)
include h

theorem fuses_second {skip : Nat} {inString : Bool} (hready : inString = false → skip = 0)
    (hfuses : Fuses (scan skip inString (first ++ second))) : ∃ skip' inString',
      (inString' = false → skip' = 0) ∧ Fuses (scan skip' inString' second) := by
  obtain ⟨skip', inString', hready', -, hscan⟩ := scan_append h.cut skip inString
    fun hout => by rw [hready hout]; exact Nat.zero_le _
  obtain ⟨number, hsingle⟩ := h.single
  rw [hscan, fuses_append] at hfuses
  exact ⟨skip', inString', hready', hfuses.resolve_left (not_fuses_of_single hsingle)⟩

theorem fuses_of_second (hquote : '"' ∉ Mark.chars first) (hfuses : Fuses (scan 0 false second)) :
    Fuses (scan 0 false (first ++ second)) := by
  obtain ⟨skip', inString', hready, hout, hscan⟩ := scan_append h.cut 0 false fun _ => Nat.zero_le _
  have hinside := hout rfl hquote
  rw [hscan, fuses_append, hinside, hready hinside]
  exact .inr hfuses

end Passed

/-- A character of a string stays inside the literal, whatever it is written as. -/
theorem scan_escapedChar (c : Char) (rest : List Mark) :
    scan 0 true ((escapedChar c).map (fun c => (c, none)) ++ rest) = scan 0 true rest := by
  unfold escapedChar
  split
  · simp [scan]
  · simp [scan]
  · simp [scan]
  · simp [scan]
  · simp [scan]
  · rename_i hslash hquote _ _ _
    simp [scan, show c ≠ '\\' from hslash, show c ≠ '"' from hquote]

/-- Nothing is read in a string literal. -/
theorem scan_quoted (value : String) (number : Nat) (rest : List Mark) :
    scan 0 false ((Piece.quoted value).marks number ++ rest) = scan 0 false rest := by
  have hinside (cs : List Char) (rest : List Mark) :
      scan 0 true ((cs.flatMap escapedChar).map (fun c => (c, none)) ++ rest) = scan 0 true rest := by
    induction cs with
    | nil => rfl
    | cons c cs ih => rw [List.flatMap_cons, List.map_append, List.append_assoc, scan_escapedChar, ih]
  have hliteral : (Piece.quoted value).marks number
      = ('"', none) :: ((value.toList.flatMap escapedChar).map (fun c => (c, none)) ++ [('"', none)]) := by
    simp [Piece.marks, Piece.text, Piece.isOperator, Piece.front?, Piece.isJoint, stringLiteral]
  rw [hliteral, List.cons_append, scan_opening rfl, List.append_assoc, hinside]
  exact scan_inside (by decide)

/-! ## Fused tokens of pieces -/

/-- Pieces that stand as in the text of an expression. -/
structure WellSet (pieces : List Piece) : Prop where
  beside : pieces.IsChain Piece.Beside
  starts : ∀ piece ∈ pieces.head?, piece.isJoint = false
  sound : ∀ piece ∈ pieces, piece.Sound

namespace WellSet

theorem tail {piece : Piece} {rest : List Piece} (h : WellSet (piece :: rest))
    (hhead : ∀ next ∈ rest.head?, next.isJoint = false) : WellSet rest :=
  ⟨h.beside.tail, hhead, fun other hm => h.sound other (.tail _ hm)⟩

/-- Behind an operator between two parts there is none, and the rest is well set by itself. -/
theorem behindJoint {piece : Piece} {text : String} {rest : List Piece}
    (h : WellSet (piece :: .joint text :: rest)) :
    (∀ next ∈ rest.head?, next.isOperator = false) ∧ WellSet rest := by
  obtain ⟨-, hchain⟩ := List.isChain_cons_cons.mp h.beside
  have hhead : ∀ next ∈ rest.head?, next.isOperator = false := by
    cases rest with
    | nil => exact nofun
    | cons next rest =>
      intro other hother
      cases hother
      exact (List.isChain_cons_cons.mp hchain).1
  exact ⟨hhead, hchain.tail, fun next hm => (Bool.or_eq_false_iff.mp (hhead next hm)).2,
    fun other hm => h.sound other (.tail _ (.tail _ hm))⟩

end WellSet

/-- An operator that is read alone. -/
theorem scan_of_munch_one {c : Char} {number : Option Nat} {marks : List Mark} (hquote : c ≠ '"')
    (h : munch (c :: Mark.chars marks) = 1) :
    scan 0 false ((c, number) :: marks) = [(c, number)] :: scan 0 false marks := by
  have hmunch : munch (Mark.chars ((c, number) :: marks)) = 0 + 1 := h
  exact scan_operator hquote hmunch

/-- Two equal signs are read as one. -/
theorem fuses_of_signs {c : Char} (h : [c, c] ∈ nativeOperators) (hquote : c ≠ '"') {i j : Nat}
    (hne : i ≠ j) (marks : List Mark) : Fuses (scan 0 false ((c, some i) :: (c, some j) :: marks)) := by
  have htwo : 2 ≤ munch (Mark.chars ((c, some i) :: (c, some j) :: marks)) :=
    le_munch h ⟨Mark.chars marks, rfl⟩
  obtain ⟨n, hn⟩ := Nat.exists_eq_add_of_le' htwo
  rw [scan_operator (by exact hquote) hn]
  exact ⟨_, .head _, _, .head _, _, .tail _ (.head _), i, j, rfl, rfl, hne⟩

/-- What is read of pieces that begin with an operator in front of its operand. -/
theorem scan_front {piece : Piece} {c : Char} (hpiece : piece.front? = some c) {rest : List Piece}
    (hset : WellSet (piece :: rest)) (hstarts : ∀ piece ∈ rest, piece.StartsPlain) (number : Nat) :
    SignAgain piece rest ∧ Fuses (scan 0 false (marksFrom number (piece :: rest))) ∨
      ¬ SignAgain piece rest ∧ scan 0 false (marksFrom number (piece :: rest))
        = [(c, some number)] :: scan 0 false (marksFrom (number + 1) rest) := by
  obtain ⟨-, -, hquote, -⟩ := front_mem hpiece
  rw [marksFrom, Piece.marks_of_front hpiece, List.singleton_append]
  cases rest with
  | nil =>
    refine .inr ⟨?_, scan_of_munch_one hquote (munch_front hpiece nofun)⟩
    rintro ⟨sign, -, -, hhead⟩
    cases hhead
  | cons next rest =>
    obtain ⟨hbeside, -⟩ := List.isChain_cons_cons.mp hset.beside
    have hagain (h : SignAgain piece (next :: rest)) :
        next.front? = some c ∧ (c = '-' ∨ c = '+' ∨ c = '&') := by
      obtain ⟨sign, hsign, rfl, hhead⟩ := h
      obtain rfl := Option.some.inj hhead
      refine ⟨hpiece, ?_⟩
      rcases hsign with rfl | rfl
      · exact .inl (Option.some.inj hpiece).symm
      · exact .inr (.inl (Option.some.inj hpiece).symm)
    -- The sign is seen again only if the next piece begins with it, so the cases are what that piece
    -- begins with: no operator, the same sign, or another.
    cases hnext : next.front? with
    | none =>
      have hplain : next.isOperator = false := by
        cases piece with
        | unary op =>
          rw [Piece.isOperator, hnext, show next.isJoint = false from hbeside]
          rfl
        | address => exact hbeside
        | _ => cases hpiece
      obtain ⟨d, more, htext, hd⟩ := Piece.head_of_plain hplain (hset.sound next (by simp))
        (hstarts next (.head _))
      have hno : ¬ SignAgain piece (next :: rest) := fun h => by
        cases hnext.symm.trans (hagain h).1
      refine .inr ⟨hno, scan_of_munch_one hquote
        (munch_front hpiece fun other hother => .inl ?_)⟩
      rw [marksFrom, Mark.chars, List.map_append, ← Mark.chars, Piece.chars_marks, htext] at hother
      cases hother
      exact hd
    | some d =>
      rw [marksFrom, Piece.marks_of_front hnext, List.singleton_append]
      by_cases hsame : d = c ∧ (c = '-' ∨ c = '+' ∨ c = '&')
      · obtain ⟨rfl, hsign⟩ := hsame
        obtain rfl := Piece.front?_injective hpiece hnext
        left
        rcases hsign with rfl | rfl | rfl
        · exact ⟨⟨.neg, .inl rfl, Piece.front?_injective hpiece rfl,
            congrArg some (Piece.front?_injective hpiece rfl)⟩,
            fuses_of_signs (by decide) hquote (Nat.ne_of_lt (Nat.lt_succ_self _)) _⟩
        · exact ⟨⟨.plus, .inr rfl, Piece.front?_injective hpiece rfl,
            congrArg some (Piece.front?_injective hpiece rfl)⟩,
            fuses_of_signs (by decide) hquote (Nat.ne_of_lt (Nat.lt_succ_self _)) _⟩
        · cases Piece.front?_injective hpiece (rfl : Piece.address.front? = some '&')
          cases hbeside
      · refine .inr ⟨fun h => hsame ⟨Option.some.inj (hnext.symm.trans (hagain h).1), (hagain h).2⟩,
          scan_of_munch_one hquote (munch_front hpiece fun other hother => .inr ?_)⟩
        cases hother
        exact ⟨(front_mem hnext).1, hsame⟩

/-- Behind what is no operator there is the end, a part that begins with none, or, behind a gap, an
operator in front of its operand. No operator leaves the piece there. -/
theorem passed_plain {piece : Piece} {rest : List Piece} (hplain : piece.isOperator = false)
    (hset : WellSet (piece :: rest)) (hstarts : ∀ piece ∈ rest, piece.StartsPlain)
    (hjoint : ∀ next ∈ rest.head?, next.isJoint = false) (number : Nat) :
    Passed (piece.marks number) (marksFrom (number + 1) rest) := by
  refine ⟨?_, number, fun mark hmark i hi => (Piece.number_of_mem_marks hmark hi).2⟩
  by_cases hhead : ∀ next ∈ rest.head?, next.isOperator = false
  · exact cut_of_head (plain_marksFrom hhead (fun other hm => hset.sound other (.tail _ hm)) hstarts _)
  · cases rest with
    | nil => exact absurd nofun hhead
    | cons next rest =>
      obtain ⟨hbeside, -⟩ := List.isChain_cons_cons.mp hset.beside
      have hfront : next.front? ≠ none := by
        intro hnone
        refine hhead fun other hother => ?_
        cases hother
        rw [Piece.isOperator, hnone, hjoint next rfl]
        rfl
      cases piece with
      | gap text =>
        refine cut_of_last fun mark hmark => ?_
        obtain ⟨c, hc, rfl⟩ := List.mem_map.mp (List.mem_of_getLast? hmark)
        exact ((hset.sound (.gap text) (.head _)).2 c hc).1
      | word text => exact absurd hbeside hfront
      | quoted value => exact absurd hbeside hfront
      | unary op => cases op <;> cases hplain
      | address => cases hplain
      | joint text => cases hplain

/-- An operator between two parts, with what stands in front of it. -/
theorem passed_joint {before : List Mark} {text : String} {rest : List Piece} {number : Nat}
    (hbefore : ∀ mark ∈ before, mark.2 = none) (hset : WellSet rest)
    (hhead : ∀ next ∈ rest.head?, next.isOperator = false)
    (hstarts : ∀ piece ∈ rest, piece.StartsPlain) :
    Passed (before ++ (Piece.joint text).marks number) (marksFrom (number + 1) rest) := by
  refine ⟨cut_of_head (plain_marksFrom hhead hset.sound hstarts _), number, fun mark hmark i hi => ?_⟩
  rcases List.mem_append.mp hmark with hmark | hmark
  · rw [hbefore mark hmark] at hi
    cases hi
  · exact (Piece.number_of_mem_marks hmark hi).2

/-- Tokens of the pieces are fused exactly if the same sign is written twice in a row. -/
structure FusesAsDoubled (number : Nat) (pieces : List Piece) : Prop where
  /-- Whatever stands before the pieces. -/
  doubled : ∀ skip inString, (inString = false → skip = 0) →
    Fuses (scan skip inString (marksFrom number pieces)) → Doubled pieces
  /-- Quotes in words can hide the signs. -/
  fuses : (∀ piece ∈ pieces, piece.Unquoted) → Doubled pieces →
    Fuses (scan 0 false (marksFrom number pieces))

namespace FusesAsDoubled

theorem nil (number : Nat) : FusesAsDoubled number [] where
  doubled _ _ _ := by
    rintro ⟨token, htoken, -⟩
    cases htoken
  fuses _ := by
    rintro ⟨sign, -, hsign⟩
    cases List.infix_nil.mp hsign

/-- In a string literal an operator is no more than a character. Outside, it is read alone, or it is
followed by the same sign. -/
theorem front {piece : Piece} {rest : List Piece} {number : Nat}
    (h : FusesAsDoubled (number + 1) rest) (hset : WellSet (piece :: rest))
    (hstarts : ∀ piece ∈ rest, piece.StartsPlain) {c : Char} (hpiece : piece.front? = some c) :
    FusesAsDoubled number (piece :: rest) := by
  obtain ⟨-, -, hquote, hslash⟩ := front_mem hpiece
  have hmarks : marksFrom number (piece :: rest) = (c, some number) :: marksFrom (number + 1) rest := by
    rw [marksFrom, Piece.marks_of_front hpiece, List.singleton_append]
  constructor
  · intro skip inString hready hfuses
    refine doubled_cons.mpr ?_
    cases skip with
    | succ skip =>
      rw [hmarks, scan] at hfuses
      exact .inr (h.doubled skip inString (fun hout => (by cases hready hout)) hfuses)
    | zero =>
      cases inString with
      | true =>
        rw [hmarks, scan_inside (by exact hslash), decide_eq_true (by exact hquote)] at hfuses
        exact .inr (h.doubled 0 true (fun hout => (by cases hout)) hfuses)
      | false =>
        rcases scan_front hpiece hset hstarts number with ⟨hagain, -⟩ | ⟨-, halone⟩
        · exact .inl hagain
        · rw [halone, ← List.singleton_append, fuses_append] at hfuses
          exact .inr (h.doubled 0 false (fun _ => rfl) (hfuses.resolve_left (not_fuses_singleton _)))
  · intro hunquoted hdoubled
    rcases scan_front hpiece hset hstarts number with ⟨-, hfuses⟩ | ⟨hno, halone⟩
    · exact hfuses
    · rw [halone, ← List.singleton_append, fuses_append]
      exact .inr (h.fuses (fun other hm => hunquoted other (.tail _ hm))
        ((doubled_cons.mp hdoubled).resolve_left hno))

/-- What is no operator has no part in a token that goes on behind it. -/
theorem plain {piece : Piece} {rest : List Piece} {number : Nat}
    (h : FusesAsDoubled (number + 1) rest) (hset : WellSet (piece :: rest))
    (hstarts : ∀ piece ∈ rest, piece.StartsPlain) (hplain : piece.isOperator = false)
    (hjoint : ∀ next ∈ rest.head?, next.isJoint = false) :
    FusesAsDoubled number (piece :: rest) := by
  have hpassed := passed_plain hplain hset hstarts hjoint number
  have hdrop : Doubled (piece :: rest) ↔ Doubled rest := doubled_cons_of_plain hplain
  constructor
  · intro skip inString hready hfuses
    obtain ⟨skip', inString', hready', hrest⟩ := hpassed.fuses_second hready hfuses
    exact hdrop.mpr (h.doubled skip' inString' hready' hrest)
  · intro hunquoted hdoubled
    have hrest := h.fuses (fun other hm => hunquoted other (.tail _ hm)) (hdrop.mp hdoubled)
    rw [marksFrom]
    rcases Piece.quoted_or_clear hplain (hset.sound piece (.head _)) (hunquoted piece (.head _)) with
      ⟨value, rfl⟩ | hclear
    · rw [scan_quoted]
      exact hrest
    · refine hpassed.fuses_of_second ?_ hrest
      rwa [Piece.chars_marks]

/-- An operator between two parts has none next to it, whatever token the part in front of it may end
with. -/
theorem joint {piece : Piece} {text : String} {rest : List Piece} {number : Nat}
    (h : FusesAsDoubled (number + 2) rest) (hset : WellSet (piece :: .joint text :: rest))
    (hstarts : ∀ piece ∈ rest, piece.StartsPlain) (hplain : piece.isOperator = false) :
    FusesAsDoubled number (piece :: .joint text :: rest) := by
  obtain ⟨hhead, hrest⟩ := hset.behindJoint
  have hnone : ∀ mark ∈ piece.marks number, mark.2 = none := by
    intro mark hmark
    cases hi : mark.2 with
    | none => rfl
    | some i =>
      have hoperator := (Piece.number_of_mem_marks hmark hi).1
      rw [hplain] at hoperator
      cases hoperator
  have hdrop : Doubled (piece :: .joint text :: rest) ↔ Doubled rest :=
    (doubled_cons_of_plain hplain).trans (doubled_cons_of_ne (by simp))
  have hquote : '"' ∉ text.toList := hset.sound (.joint text) (by simp)
  constructor
  · intro skip inString hready hfuses
    rw [marksFrom, marksFrom, ← List.append_assoc] at hfuses
    obtain ⟨skip', inString', hready', hfuses⟩ :=
      (passed_joint hnone hrest hhead hstarts).fuses_second hready hfuses
    exact hdrop.mpr (h.doubled skip' inString' hready' hfuses)
  · intro hunquoted hdoubled
    have hfuses := h.fuses (fun other hm => hunquoted other (.tail _ (.tail _ hm)))
      (hdrop.mp hdoubled)
    have hbehind (before : List Mark) (hbefore : ∀ mark ∈ before, mark.2 = none)
        (hclear : '"' ∉ Mark.chars before) : Fuses (scan 0 false (before ++
          ((Piece.joint text).marks (number + 1) ++ marksFrom (number + 2) rest))) := by
      rw [← List.append_assoc]
      refine (passed_joint hbefore hrest hhead hstarts).fuses_of_second ?_ hfuses
      rw [Mark.chars, List.map_append, ← Mark.chars, ← Mark.chars, Piece.chars_marks, List.mem_append]
      exact fun hm => hm.elim hclear hquote
    rw [marksFrom, marksFrom]
    rcases Piece.quoted_or_clear hplain (hset.sound piece (.head _)) (hunquoted piece (.head _)) with
      ⟨value, rfl⟩ | hclear
    · rw [scan_quoted]
      exact hbehind [] (by simp) (by simp [Mark.chars])
    · refine hbehind _ hnone ?_
      rwa [Piece.chars_marks]

end FusesAsDoubled

/-- **The operators of well-set pieces are read as one only if they are equal signs, twice in a row.**
That they are is so for all pieces whose words do not begin with the character of an operator. That
such signs are indeed read as one is so if there are no quotes in words, which could hide them. -/
theorem fuses_marksFrom {pieces : List Piece} (hset : WellSet pieces)
    (hstarts : ∀ piece ∈ pieces, piece.StartsPlain) (number : Nat) :
    FusesAsDoubled number pieces := by
  -- By two steps, since an operator between two parts is taken together with the part in front of it.
  induction pieces using List.twoStepInduction generalizing number with
  | nil => exact .nil number
  | singleton piece =>
    cases hpiece : piece.front? with
    | some c => exact .front (.nil _) hset nofun hpiece
    | none =>
      refine .plain (.nil _) hset nofun ?_ nofun
      rw [Piece.isOperator, hpiece, hset.starts piece rfl]
      rfl
  | cons_cons piece next rest ihrest ihnext =>
    obtain ⟨hbeside, hchain⟩ := List.isChain_cons_cons.mp hset.beside
    have hstarts' : ∀ other ∈ next :: rest, other.StartsPlain := fun other hm =>
      hstarts other (.tail _ hm)
    cases hpiece : piece.front? with
    | some c =>
      have hjoint : next.isJoint = false := by
        cases piece with
        | unary op => exact hbeside
        | address => exact (Bool.or_eq_false_iff.mp hbeside).2
        | _ => cases hpiece
      have htail := hset.tail fun other hm => by cases hm; exact hjoint
      exact .front (ihnext next htail hstarts' _) hset hstarts' hpiece
    | none =>
      have hplain : piece.isOperator = false := by
        rw [Piece.isOperator, hpiece, hset.starts piece rfl]
        rfl
      cases hjoint : next.isJoint with
      | false =>
        have hhead : ∀ other ∈ (next :: rest).head?, other.isJoint = false := by
          intro other hm
          cases hm
          exact hjoint
        exact .plain (ihnext next (hset.tail hhead) hstarts' _) hset hstarts' hplain hhead
      | true =>
        cases next with
        | joint text =>
          exact .joint (ihrest hset.behindJoint.2 (fun other hm => hstarts other (.tail _ (.tail _ hm))) _) hset
            (fun other hm => hstarts other (.tail _ (.tail _ hm))) hplain
        | _ => cases hjoint

end NativeLowering
