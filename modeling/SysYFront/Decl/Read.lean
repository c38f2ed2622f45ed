import SysYFront.Decl.Basic
import SysYFront.Expr.Read

/-!
# SysYFront.Decl.Read

Reading declarations.

    list        ::=  "const"? ("int" | "float") declarator ("," declarator)* ";"
    declarator  ::=  name ("[" expr "]")* ("=" init)?
    init        ::=  expr | string | "{" (init ("," init)* ","?)? "}"
-/

namespace SysYFront

/-- The scalar base type that a token names. -/
def Base.ofScalarKind? : Token.Kind → Option Base
  | .keyword .intKw => some int
  | .keyword .floatKw => some float
  | _ => none

/-- Takes the keyword of a scalar base type and gives it with its place. -/
def Base.readScalar (wanted : Expectation) : Reading (Base × Location) := do
  match ← Reading.next? with
  | some ⟨kind, l⟩ =>
    match Base.ofScalarKind? kind with
    | some base =>
      Reading.advance
      pure (base, l)
    | none => throw wanted
  | none => throw wanted

namespace Init

/-- Reads the items of a list up to its closing brace, or up to an item without a
comma behind it; at most `n` items. A comma may stand behind the last item. -/
def readItems (self : Reading (Init Unit)) : Nat → Reading (List (Init Unit))
  | 0 => pure []
  | n + 1 => do
    match ← Reading.next? with
    | some ⟨.symbol .rightBrace, _⟩ => pure []
    | _ =>
      let item ← self
      if ← Reading.accept (.symbol .comma) then
        let items ← readItems self n
        pure (item :: items)
      else pure [item]

/-- The initializer that a string literal is: the numbers of its characters. -/
def ofString (s : String) (l : Location) : Init Unit :=
  .list (s.toList.map fun c => .expr (.literal (.int (Int32.ofNat c.toNat)) l ())) l

/-- Reads an initializer, nested at most `depth` deep. -/
def readWithin : Nat → Reading (Init Unit)
  | 0 => throw .expression
  | depth + 1 => do
    match ← Reading.next? with
    | some ⟨.stringLiteral s, l⟩ =>
      Reading.advance
      pure (ofString s l)
    | some ⟨.symbol .leftBrace, l⟩ =>
      Reading.advance
      let tokens ← get
      let items ← readItems (readWithin depth) (tokens.length + 1)
      let _ ← Reading.expect (.symbol .rightBrace) .closingInitializer
      pure (.list items l)
    | _ =>
      let e ← Expr.read
      pure (.expr e)

/-- Reads an initializer. Every level of nesting takes a token, so the number of
tokens bounds the depth. -/
def read : Reading (Init Unit) := fun tokens =>
  readWithin (tokens.length + 1) tokens

end Init

namespace Decl

/-- Whether a declaration can start with a token. -/
def startsWith : Token.Kind → Bool
  | .keyword .constKw | .keyword .intKw | .keyword .floatKw => true
  | _ => false

/-- Reads one extent with its brackets. -/
def readDimension : Reading (Expr Unit) := do
  Reading.advance
  let e ← Expr.read
  let _ ← Reading.expect (.symbol .rightBracket) .closingDimension
  pure e

/-- Reads extents as long as a bracket opens. -/
def readDimensions : Reading (List (Expr Unit)) :=
  Reading.many (· == .symbol .leftBracket) readDimension

/-- Reads one variable of a declaration list. -/
def readDeclarator (isConst : Bool) (base : Base) : Reading (Decl Unit) := do
  let (name, location) ← Reading.expectName
  let dims ← readDimensions
  if ← Reading.accept (.symbol .equal) then
    let init ← Init.read
    pure { name, isConst, base, dims, init := some init, location, note := () }
  else
    pure { name, isConst, base, dims, init := none, location, note := () }

/-- Reads a declaration list: one declaration for every name. -/
def readList : Reading (List (Decl Unit)) := do
  let isConst ← Reading.accept (.keyword .constKw)
  let (base, _) ← Base.readScalar .baseAfterConst
  let decls ← Reading.separated (.symbol .comma) (readDeclarator isConst base)
  let _ ← Reading.expect (.symbol .semicolon) .endOfDeclaration
  pure decls

end Decl

end SysYFront
