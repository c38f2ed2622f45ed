import SysYFront.Token.Basic

/-!
# SysYFront.Token.Piece

A source text cut into pieces. A piece is one token, one comment or one blank
character. What comes next is decided by the first character, and where two
words could be read the longer one is; text that starts like a token but is
malformed is one piece up to where the damage ends, so scanning never stops
early.

Main statement: the pieces of a text, put together again, are the text
(`texts_pieces`), and no piece is empty.
-/

namespace SysYFront.Token

/-- What can be wrong with a piece of text. -/
inductive Fault
  | openComment
  | openString
  | loneAmpersand
  | loneBar
  | strayCharacter (c : Char)
  | badOctalDigit (c : Char)
  | noDigits
  | badNumberPart (c : Char)
  deriving DecidableEq, Repr

/-- The words for a fault. -/
def Fault.reason : Fault → String
  | openComment => "Unterminated block comment"
  | openString => "Unterminated string literal"
  | loneAmpersand => "Expected '&&', found single '&'"
  | loneBar => "Expected '||', found single '|'"
  | strayCharacter c => "Unexpected character: '" ++ c.toString ++ "'"
  | badOctalDigit c => "Invalid digit '" ++ c.toString ++ "' in octal literal"
  | noDigits => "Numeric literal has no digits"
  | badNumberPart c => "Invalid character '" ++ c.toString ++ "' in numeric literal"

/-! ### Character classes -/

def isBlank (c : Char) : Bool :=
  c == ' ' || c == '\t' || c == '\r' || c == '\n'

/-- A letter of ASCII or the underscore. -/
def isNameStart (c : Char) : Bool :=
  c.isAlpha || c == '_'

/-- A letter or digit of ASCII or the underscore. -/
def isNamePart (c : Char) : Bool :=
  c.isAlphanum || c == '_'

/-- What cannot stand directly behind a number. -/
def isNumberPart (c : Char) : Bool :=
  isNamePart c || c == '.'

/-! ### Numbers -/

/-- The two radices that are marked by how a number starts. -/
inductive Radix
  | octal
  | hexadecimal
  deriving DecidableEq, Repr

def Radix.base : Radix → Nat
  | octal => 8
  | hexadecimal => 16

/-- Whether a character is a digit of the radix. -/
def Radix.isDigit : Radix → Char → Bool
  | octal, c => '0' ≤ c && c ≤ '7'
  | hexadecimal, c => c.isDigit || ('a' ≤ c && c ≤ 'f') || ('A' ≤ c && c ≤ 'F')

/-- The value of a digit in any radix up to sixteen. -/
def digitValue (c : Char) : Nat :=
  if c.isDigit then c.toNat - '0'.toNat
  else if 'a' ≤ c ∧ c ≤ 'f' then c.toNat - 'a'.toNat + 10
  else c.toNat - 'A'.toNat + 10

/-- The number that a row of digits denotes. -/
def numeral (base : Nat) (digits : List Char) : Nat :=
  digits.foldl (fun n c => n * base + digitValue c) 0

/-- An integer literal of any length keeps the lowest thirty-two bits. -/
def intKind (base : Nat) (digits : List Char) : Kind :=
  .intLiteral (Int32.ofNat (numeral base digits))

/-- The float nearest to `whole` `.` `fraction`. -/
def floatKind (whole fraction : List Char) : Kind :=
  .floatLiteral (Float32.ofScientific (numeral 10 (whole ++ fraction)) true fraction.length)

/-- A token behind the first character of its piece, with the number of further
characters that it takes. -/
abbrev Scanned := Kind × Nat

/-- A malformed piece that takes `length` further characters. -/
def faulty (f : Fault) (length : Nat) : Scanned :=
  (.invalid f.reason, length)

/-- Ends a number of `length` further characters before `rest`. Letters, digits,
underscores and points that follow directly spoil it and belong to the damage. -/
def endNumber (kind : Kind) (length : Nat) (rest : List Char) : Scanned :=
  match rest.takeWhile isNumberPart with
  | [] => (kind, length)
  | c :: more => faulty (.badNumberPart c) (length + more.length + 1)

/-- An octal or hexadecimal number whose digits start at `cs`, after `lead`
characters of its mark. Underscores may stand anywhere among the digits. -/
def radixNumber (radix : Radix) (lead : Nat) (cs : List Char) : Scanned :=
  let isPart (c : Char) := c == '_' || radix.isDigit c
  let body := cs.takeWhile isPart
  let rest := cs.dropWhile isPart
  let digits := body.filter (· != '_')
  let length := lead + body.length
  let damage := length + (rest.takeWhile isNamePart).length
  match rest.takeWhile Char.isDigit, digits with
  | c :: _, _ => faulty (.badOctalDigit c) damage
  | [], [] => faulty .noDigits damage
  | [], _ => endNumber (intKind radix.base digits) length rest

/-- A decimal integer, or a float if a point follows its digits. -/
def decimalNumber (first : Char) (cs : List Char) : Scanned :=
  let whole := cs.takeWhile Char.isDigit
  match cs.dropWhile Char.isDigit with
  | '.' :: rest =>
    let fraction := rest.takeWhile Char.isDigit
    endNumber (floatKind (first :: whole) fraction) (whole.length + 1 + fraction.length)
      (rest.dropWhile Char.isDigit)
  | rest => endNumber (intKind 10 (first :: whole)) whole.length rest

/-- A number that starts with the digit `first`. A zero before `x` marks a
hexadecimal number, a zero before a digit or an underscore an octal one. -/
def number (first : Char) (cs : List Char) : Scanned :=
  match cs with
  | c :: rest =>
    if first = '0' ∧ (c = 'x' ∨ c = 'X') then radixNumber .hexadecimal 1 rest
    else if first = '0' ∧ (c.isDigit ∨ c = '_') then radixNumber .octal 0 cs
    else decimalNumber first cs
  | [] => decimalNumber first []

/-! ### Strings, words and symbols -/

/-- The character that a letter behind a backslash stands for. -/
def unescape : Char → Char
  | 'n' => '\n'
  | 't' => '\t'
  | '0' => '\x00'
  | c => c

/-- The text of a string up to its closing quote, and the number of characters
that it takes with the quote. Line feeds may stand in it. -/
def stringBody? : List Char → Option (List Char × Nat)
  | [] => none
  | '"' :: _ => some ([], 1)
  | ['\\'] => none
  | '\\' :: c :: rest => (stringBody? rest).map fun (s, n) => (unescape c :: s, n + 2)
  | c :: rest => (stringBody? rest).map fun (s, n) => (c :: s, n + 1)

/-- A string literal behind its opening quote. -/
def string (cs : List Char) : Scanned :=
  match stringBody? cs with
  | some (s, n) => (.stringLiteral (String.ofList s), n)
  | none => faulty .openString cs.length

/-- A reserved word or a name that starts with `first`. -/
def word (first : Char) (cs : List Char) : Scanned :=
  let more := cs.takeWhile isNamePart
  let text := String.ofList (first :: more)
  match Keyword.ofText? text with
  | some k => (.keyword k, more.length)
  | none => (.name text, more.length)

/-- What is wrong with a character that starts no token. -/
def strayFault : Char → Fault
  | '&' => .loneAmpersand
  | '|' => .loneBar
  | c => .strayCharacter c

/-- A symbol: of two characters where there is one, else of one. -/
def symbol (first : Char) (cs : List Char) : Scanned :=
  match cs.head?.bind fun c => Symbol.ofText? [first, c], Symbol.ofText? [first] with
  | some s, _ => (.symbol s, 1)
  | none, some s => (.symbol s, 0)
  | none, none => faulty (strayFault first) 0

/-- A token that starts with `first`. -/
def scan (first : Char) (cs : List Char) : Scanned :=
  if first = '"' then string cs
  else if first.isDigit then number first cs
  else if isNameStart first then word first cs
  else symbol first cs

/-! ### Pieces -/

/-- The number of characters up to the end of a block comment. -/
def closeComment? : List Char → Option Nat
  | [] => none
  | '*' :: '/' :: _ => some 2
  | _ :: rest => (closeComment? rest).map (· + 1)

/-- The kind of the piece that starts with `first`, none for blanks and comments,
and the number of further characters that it takes. -/
def scanPiece (first : Char) (cs : List Char) : Option Kind × Nat :=
  if isBlank first then (none, 0)
  else
    match first, cs with
    | '/', '/' :: rest => (none, 1 + (rest.takeWhile (· != '\n')).length)
    | '/', '*' :: rest =>
      match closeComment? rest with
      | some n => (none, 1 + n)
      | none => (some (.invalid Fault.openComment.reason), cs.length)
    | _, _ => ((scan first cs).1, (scan first cs).2)

/-- A token, a comment or a blank, with its text. -/
structure Piece where
  kind : Option Kind
  text : List Char
  deriving DecidableEq

/-- The pieces of a text, in order. -/
def pieces : List Char → List Piece
  | [] => []
  | c :: cs =>
    ⟨(scanPiece c cs).1, c :: cs.take (scanPiece c cs).2⟩ :: pieces (cs.drop (scanPiece c cs).2)
termination_by cs => cs.length
decreasing_by simp only [List.length_cons, List.length_drop]; omega

/-- Cutting a text into pieces loses nothing. -/
theorem texts_pieces (cs : List Char) : (pieces cs).flatMap Piece.text = cs := by
  fun_induction pieces cs with
  | case1 => rfl
  | case2 c cs ih => simp [ih]

/-- Every piece has some text. -/
theorem text_ne_nil_of_mem_pieces {cs : List Char} {p : Piece} (h : p ∈ pieces cs) :
    p.text ≠ [] := by
  fun_induction pieces cs with
  | case1 => simp at h
  | case2 c cs ih =>
    rcases List.mem_cons.1 h with rfl | h
    · simp
    · exact ih h

end SysYFront.Token
