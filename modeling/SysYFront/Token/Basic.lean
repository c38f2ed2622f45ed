import SysYFront.Location
import SysYFront.Number.Layout
import SysYFront.Text.Quoted

/-!
# SysYFront.Token.Basic

The words of the language. A token is a kind at a place; literals and names carry
their value. A piece of text that is no word of the language is a token as well,
of the kind `invalid` with the reason, so that a source text always has a list of
tokens; the last one is `endOfFile`.
-/

namespace SysYFront

/-- The reserved words. -/
inductive Keyword
  | constKw
  | intKw
  | floatKw
  | voidKw
  | ifKw
  | elseKw
  | whileKw
  | breakKw
  | continueKw
  | returnKw
  deriving DecidableEq, Repr

namespace Keyword

/-- How the word is spelled. -/
def text : Keyword → String
  | constKw => "const"
  | intKw => "int"
  | floatKw => "float"
  | voidKw => "void"
  | ifKw => "if"
  | elseKw => "else"
  | whileKw => "while"
  | breakKw => "break"
  | continueKw => "continue"
  | returnKw => "return"

/-- Every reserved word. -/
def all : List Keyword :=
  [constKw, intKw, floatKw, voidKw, ifKw, elseKw, whileKw, breakKw, continueKw, returnKw]

/-- The reserved word with a given spelling. -/
def ofText? (s : String) : Option Keyword :=
  all.find? fun k => k.text == s

theorem mem_all (k : Keyword) : k ∈ all := by
  cases k <;> decide

/-- Different words are spelled differently. -/
theorem text_injective {j k : Keyword} (h : j.text = k.text) : j = k := by
  revert h
  cases j <;> cases k <;> decide

end Keyword

/-- Operators and punctuation. -/
inductive Symbol
  | plus
  | minus
  | star
  | slash
  | percent
  | equalEqual
  | bangEqual
  | less
  | lessEqual
  | greater
  | greaterEqual
  | andAnd
  | orOr
  | bang
  | equal
  | leftParen
  | rightParen
  | leftBrace
  | rightBrace
  | leftBracket
  | rightBracket
  | semicolon
  | comma
  deriving DecidableEq, Repr

/-- How a symbol is spelled. -/
def Symbol.text : Symbol → String
  | plus => "+"
  | minus => "-"
  | star => "*"
  | slash => "/"
  | percent => "%"
  | equalEqual => "=="
  | bangEqual => "!="
  | less => "<"
  | lessEqual => "<="
  | greater => ">"
  | greaterEqual => ">="
  | andAnd => "&&"
  | orOr => "||"
  | bang => "!"
  | equal => "="
  | leftParen => "("
  | rightParen => ")"
  | leftBrace => "\x7b"
  | rightBrace => "\x7d"
  | leftBracket => "["
  | rightBracket => "]"
  | semicolon => ";"
  | comma => ","

/-- Every symbol. -/
def Symbol.all : List Symbol :=
  [plus, minus, star, slash, percent, equalEqual, bangEqual, less, lessEqual, greater,
    greaterEqual, andAnd, orOr, bang, equal, leftParen, rightParen, leftBrace, rightBrace,
    leftBracket, rightBracket, semicolon, comma]

/-- The symbol with a given spelling. -/
def Symbol.ofText? (s : List Char) : Option Symbol :=
  all.find? fun symbol => symbol.text.toList == s

theorem Symbol.mem_all (s : Symbol) : s ∈ all := by
  cases s <;> decide

namespace Token

/-- What a token is, its place apart. -/
inductive Kind
  | intLiteral (value : Int32)
  | floatLiteral (value : Float32)
  | stringLiteral (text : String)
  | name (text : String)
  | keyword (word : Keyword)
  | symbol (s : Symbol)
  /-- Text that is no word of the language, and why. -/
  | invalid (reason : String)
  | endOfFile
  deriving DecidableEq

/-- How a message names what it found. -/
def Kind.describe : Kind → String
  | intLiteral n => "int literal " ++ toString n.toInt
  | floatLiteral x => "float literal " ++ Number.floatText x
  | stringLiteral s => "string literal " ++ Text.quote s
  | name s => "identifier '" ++ s ++ "'"
  | keyword k => "'" ++ k.text ++ "'"
  | symbol s => "'" ++ s.text ++ "'"
  | invalid reason => "invalid token (" ++ reason ++ ")"
  | endOfFile => "end of file"

end Token

/-- A token of a source text. -/
structure Token where
  kind : Token.Kind
  location : Location
  deriving DecidableEq

end SysYFront
