import SysYFront.Program.Basic
import SysYFront.Function.Read

/-!
# SysYFront.Program.Read

Reading programs: units up to the end of the file, with stray semicolons between
them left out. A unit that starts with `int` or `float` is a function if and only
if its third token is an opening bracket.
-/

namespace SysYFront

/-- What a unit of a program is, by its first tokens. -/
inductive UnitShape
  | stray
  | declaration
  | function
  | other
  deriving DecidableEq, Repr

/-- The shape of the unit that starts with tokens of the given kinds. -/
def UnitShape.ofKinds : List Token.Kind → UnitShape
  | .symbol .semicolon :: _ => stray
  | .keyword .voidKw :: _ => function
  | .keyword .constKw :: _ => declaration
  | .keyword .intKw :: rest | .keyword .floatKw :: rest =>
    if rest[1]? = some (.symbol .leftParen) then function else declaration
  | _ => other

/-- Reads one unit: nothing from a stray semicolon, one declaration for every name
of a declaration list. -/
def TopLevel.readSome : Reading (Program Unit) := do
  let tokens ← get
  match UnitShape.ofKinds ((tokens.take 3).map Token.kind) with
  | .stray =>
    Reading.advance
    pure []
  | .declaration =>
    let decls ← Decl.readList
    pure (decls.map .global)
  | .function =>
    let f ← Function.read
    pure [.function f]
  | .other => throw .topLevel

/-- Reads a program up to the end of the file. -/
def Program.read : Reading (Program Unit) := do
  let units ← Reading.many (fun _ => true) TopLevel.readSome
  pure units.flatten

/-- The program of a source text. -/
def Program.ofSource (source : String) : Except SyntaxError (Program Unit) := do
  let stream ← TokenStream.ofSource source
  (stream.run Program.read).1

end SysYFront
