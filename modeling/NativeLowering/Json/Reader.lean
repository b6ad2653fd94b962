import NativeLowering.Json.Basic

/-!
# Reading JSON

`Json.read` accepts exactly the texts of the JSON grammar: one value, with nothing but spaces,
tabs, carriage returns and line feeds around it. It sets no limit on nesting.

A string literal is read in three steps. The closing quote is found first; then escapes are
resolved into characters and 16-bit codes; then two codes that form a surrogate pair become the
one character they encode. A code left alone makes the literal denote no text.

The grammar of values is followed with a bound on the number of steps. Two steps per character
are always enough, so the bound never decides an answer.
-/

set_option autoImplicit false

namespace NativeLowering.Json

/-- The characters that may stand between tokens. -/
def isSpace (c : Char) : Bool := c == ' ' || c == '\t' || c == '\n' || c == '\r'

/-- What follows the spaces at the front. -/
def skipSpace (cs : List Char) : List Char := cs.dropWhile isSpace

/-! ## String literals -/

/-- The part of a string literal up to its closing quote, escapes unresolved, and what follows
the quote. Control characters have to be escaped. -/
def literalBody : List Char → Option (List Char × List Char)
  | [] => none
  | '"' :: rest => some ([], rest)
  | '\\' :: c :: rest => (literalBody rest).map fun p => ('\\' :: c :: p.1, p.2)
  | c :: rest =>
    if c.toNat < 0x20 then none else (literalBody rest).map fun p => (c :: p.1, p.2)

/-- What a stretch of a string literal stands for: a character, or a 16-bit code by its number. -/
inductive Piece where
  | char (c : Char)
  | code (n : Nat)

/-- The value of a hexadecimal digit. -/
def hexDigit? (c : Char) : Option Nat :=
  if c.isDigit then some (c.toNat - '0'.toNat)
  else if 'a' ≤ c ∧ c ≤ 'f' then some (c.toNat - 'a'.toNat + 10)
  else if 'A' ≤ c ∧ c ≤ 'F' then some (c.toNat - 'A'.toNat + 10)
  else none

/-- The code that four hexadecimal digits spell. -/
def hexCode? (a b c d : Char) : Option Nat := do
  let a ← hexDigit? a
  let b ← hexDigit? b
  let c ← hexDigit? c
  let d ← hexDigit? d
  return ((a * 16 + b) * 16 + c) * 16 + d

/-- The character that a backslash and one more character stand for. -/
def shortEscape? : Char → Option Char
  | '"' => some '"'
  | '\\' => some '\\'
  | '/' => some '/'
  | 'b' => some '\x08'
  | 'f' => some '\x0c'
  | 'n' => some '\n'
  | 'r' => some '\r'
  | 't' => some '\t'
  | _ => none

/-- The pieces of a literal's body, or nothing if an escape is malformed. -/
def pieces? : List Char → Option (List Piece)
  | [] => some []
  | '\\' :: 'u' :: a :: b :: c :: d :: rest => do
    let code ← hexCode? a b c d
    let tail ← pieces? rest
    return .code code :: tail
  | '\\' :: c :: rest => do
    let char ← shortEscape? c
    let tail ← pieces? rest
    return .char char :: tail
  | c :: rest =>
    if c = '\\' then none else (pieces? rest).map (.char c :: ·)

/-- Whether a code is the first half of a surrogate pair. -/
def isLead (n : Nat) : Bool := 0xD800 ≤ n && n < 0xDC00

/-- Whether a code is the second half of a surrogate pair. -/
def isTrail (n : Nat) : Bool := 0xDC00 ≤ n && n < 0xE000

/-- The text that pieces denote, or nothing if half a surrogate pair stands alone. -/
def piecesText? : List Piece → Option (List Char)
  | [] => some []
  | .char c :: rest => (piecesText? rest).map (c :: ·)
  | .code hi :: .code lo :: rest =>
    if isLead hi && isTrail lo then
      (piecesText? rest).map (Char.ofNat (0x10000 + (hi - 0xD800) * 0x400 + (lo - 0xDC00)) :: ·)
    else if isLead hi || isTrail hi then none
    else (piecesText? (.code lo :: rest)).map (Char.ofNat hi :: ·)
  | .code n :: rest =>
    if isLead n || isTrail n then none else (piecesText? rest).map (Char.ofNat n :: ·)

/-- A string literal after its opening quote: the text it denotes, if any, and what follows. -/
def literal? (cs : List Char) : Option (Option String × List Char) := do
  let (body, rest) ← literalBody cs
  let pieces ← pieces? body
  return ((piecesText? pieces).map String.ofList, rest)

/-! ## Numbers -/

/-- The digits at the front and what follows them. -/
def spanDigits (cs : List Char) : List Char × List Char := cs.span Char.isDigit

/-- The whole part of a number: one zero, or digits that do not start with zero. -/
def wholePart? : List Char → Option (List Char × List Char)
  | '0' :: rest => some (['0'], rest)
  | cs =>
    match spanDigits cs with
    | ([], _) => none
    | (digits, rest) => some (digits, rest)

/-- The fraction of a number, which may be absent. -/
def fractionPart? : List Char → Option (List Char × List Char)
  | '.' :: rest =>
    match spanDigits rest with
    | ([], _) => none
    | (digits, rest) => some ('.' :: digits, rest)
  | cs => some ([], cs)

/-- The sign an exponent may start with, and what follows it. -/
def exponentSign : List Char → List Char × List Char
  | '+' :: rest => (['+'], rest)
  | '-' :: rest => (['-'], rest)
  | cs => ([], cs)

/-- An exponent after its mark. -/
def exponentDigits? (mark : Char) (cs : List Char) : Option (List Char × List Char) :=
  let (sign, rest) := exponentSign cs
  match spanDigits rest with
  | ([], _) => none
  | (digits, rest) => some (mark :: sign ++ digits, rest)

/-- The exponent of a number, which may be absent. -/
def exponentPart? : List Char → Option (List Char × List Char)
  | 'e' :: rest => exponentDigits? 'e' rest
  | 'E' :: rest => exponentDigits? 'E' rest
  | cs => some ([], cs)

/-- The minus sign a number may start with, and what follows it. -/
def minusSign : List Char → List Char × List Char
  | '-' :: rest => (['-'], rest)
  | cs => ([], cs)

/-- A number by its spelling, and what follows it. -/
def number? (cs : List Char) : Option (String × List Char) := do
  let (sign, cs) := minusSign cs
  let (whole, cs) ← wholePart? cs
  let (fraction, cs) ← fractionPart? cs
  let (exponent, cs) ← exponentPart? cs
  return (String.ofList (sign ++ whole ++ fraction ++ exponent), cs)

/-! ## Values -/

mutual

/-- A value at the front of a text, and what follows it. -/
def value? : Nat → List Char → Option (Json × List Char)
  | 0, _ => none
  | n + 1, cs =>
    match skipSpace cs with
    | '\x7b' :: rest =>
      match skipSpace rest with
      | '\x7d' :: rest => some (.object [], rest)
      | rest => (members? n rest).map fun p => (.object p.1, p.2)
    | '[' :: rest =>
      match skipSpace rest with
      | ']' :: rest => some (.array [], rest)
      | rest => (items? n rest).map fun p => (.array p.1, p.2)
    | '"' :: rest => (literal? rest).map fun p => (.string p.1, p.2)
    | 't' :: 'r' :: 'u' :: 'e' :: rest => some (.bool true, rest)
    | 'f' :: 'a' :: 'l' :: 's' :: 'e' :: rest => some (.bool false, rest)
    | 'n' :: 'u' :: 'l' :: 'l' :: rest => some (.null, rest)
    | cs => (number? cs).map fun p => (.number p.1, p.2)

/-- One or more items and the bracket that closes their array. -/
def items? : Nat → List Char → Option (List Json × List Char)
  | 0, _ => none
  | n + 1, cs =>
    match value? n cs with
    | none => none
    | some (item, rest) =>
      match skipSpace rest with
      | ',' :: rest => (items? n rest).map fun p => (item :: p.1, p.2)
      | ']' :: rest => some ([item], rest)
      | _ => none

/-- One or more members and the brace that closes their object. -/
def members? : Nat → List Char → Option (List (Option String × Json) × List Char)
  | 0, _ => none
  | n + 1, cs =>
    match skipSpace cs with
    | '"' :: rest =>
      match literal? rest with
      | none => none
      | some (key, rest) =>
        match skipSpace rest with
        | ':' :: rest =>
          match value? n rest with
          | none => none
          | some (item, rest) =>
            match skipSpace rest with
            | ',' :: rest => (members? n rest).map fun p => ((key, item) :: p.1, p.2)
            | '\x7d' :: rest => some ([(key, item)], rest)
            | _ => none
        | _ => none
    | _ => none

end

/-- The value a text spells, if it spells one and nothing else. -/
def read (text : String) : Option Json :=
  let cs := text.toList
  match value? (2 * cs.length + 2) cs with
  | some (value, rest) => if skipSpace rest = [] then some value else none
  | none => none

end NativeLowering.Json
