import SysYFront.Function.Basic
import SysYFront.Stmt.Read

/-!
# SysYFront.Function.Read

Reading function definitions.

    function  ::=  ("int" | "float" | "void") name "(" params ")" block
    params    ::=  "void" | (param ("," param)*)?
    param     ::=  ("int" | "float") name ("[" expr? "]" ("[" expr "]")*)?

Only the first pair of brackets of a parameter may be empty. The word `void`
stands for no parameters only directly before the closing bracket.
-/

namespace SysYFront

/-- The base type that a token names as a return type. -/
def Base.ofKind? : Token.Kind → Option Base
  | .keyword .voidKw => some void
  | kind => Base.ofScalarKind? kind

/-- Reads the brackets of a parameter: whether the first pair is empty, and the
extents that are written. -/
def Param.readBrackets : Reading (Bool × List (Expr Unit)) := do
  if ← Reading.accept (.symbol .leftBracket) then
    if ← Reading.accept (.symbol .rightBracket) then
      let dims ← Decl.readDimensions
      pure (true, dims)
    else
      let first ← Expr.read
      let _ ← Reading.expect (.symbol .rightBracket) .closingDimension
      let dims ← Decl.readDimensions
      pure (false, first :: dims)
  else pure (false, [])

/-- Reads a parameter. -/
def Param.read : Reading (Param Unit) := do
  let (base, location) ← Base.readScalar .parameterBase
  let (name, _) ← Reading.expectName
  let (isOpen, dims) ← Param.readBrackets
  pure { name, base, dims, isOpen, location }

/-- Reads the parameters of a function up to the closing bracket. -/
def Param.readAll : Reading (List (Param Unit)) := fun tokens =>
  match (tokens.take 2).map Token.kind with
  | .symbol .rightParen :: _ => .ok [] tokens
  | [.keyword .voidKw, .symbol .rightParen] => .ok [] tokens.tail
  | _ => Reading.separated (.symbol .comma) Param.read tokens

/-- Reads a function definition. -/
def Function.read : Reading (Function Unit) := do
  match ← Reading.next? with
  | some ⟨kind, location⟩ =>
    match Base.ofKind? kind with
    | some returns =>
      Reading.advance
      let (name, _) ← Reading.expectName
      let _ ← Reading.expect (.symbol .leftParen) .openingParameters
      let params ← Param.readAll
      let _ ← Reading.expect (.symbol .rightParen) .closingParameters
      let body ← Block.read
      pure { name, returns, params, body, location }
    | none => throw .topLevel
  | none => throw .topLevel

end SysYFront
