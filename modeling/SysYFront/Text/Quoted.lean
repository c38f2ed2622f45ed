import SysYFront.Text.Unprintable

/-!
# SysYFront.Text.Quoted

Quoted text, as tokens and outlines show string literals: between double quotes,
with short escapes for the usual controls, `\u{…}` with lower-case hexadecimal
digits for the other characters that have no image of their own, and every other
character as it is.
-/

namespace SysYFront.Text

/-- The letter of a short escape: NUL, tab, line feed, carriage return, the quote
and the backslash have one. -/
def shortEscape? : Char → Option Char
  | '\x00' => some '0'
  | '\t' => some 't'
  | '\n' => some 'n'
  | '\r' => some 'r'
  | '"' => some '"'
  | '\\' => some '\\'
  | _ => none

/-- How one character stands between quotes. -/
def escape (c : Char) : List Char :=
  match shortEscape? c with
  | some letter => ['\\', letter]
  | none =>
    if isUnprintable c then
      ['\\', 'u', '\x7b'] ++ Nat.toDigits 16 c.toNat ++ ['\x7d']
    else [c]

/-- A text between double quotes. -/
def quote (s : String) : String :=
  String.ofList ('"' :: (s.toList.flatMap escape ++ ['"']))

end SysYFront.Text
