import SysYFront.Stmt.Basic
import SysYFront.Decl.Read

/-!
# SysYFront.Stmt.Read

Reading statements and blocks.

    block  ::=  "{" (declaration-list | stmt)* "}"
    stmt   ::=  block | ";" | expr ";" | "break" ";" | "continue" ";"
             |  "return" expr? ";" | "while" "(" expr ")" stmt
             |  "if" "(" expr ")" stmt ("else" stmt)?

An `else` belongs to the nearest `if` that has none, because a statement takes it
as soon as it sees it. A declaration is no statement, so it cannot be a branch or
a loop body.
-/

namespace SysYFront

/-- Reads a declaration list or a statement of a block. -/
def Item.readSome (stmt : Reading (Stmt Unit)) : Reading (List (Item Unit)) := do
  match ← Reading.next? with
  | some t =>
    if Decl.startsWith t.kind then
      let decls ← Decl.readList
      pure (decls.map .decl)
    else
      let s ← stmt
      pure [.stmt s]
  | none =>
    let s ← stmt
    pure [.stmt s]

/-- Reads a block, given how to read a statement. -/
def Block.readWith (stmt : Reading (Stmt Unit)) : Reading (Block Unit) := do
  let location ← Reading.expect (.symbol .leftBrace) .openingBlock
  let items ← Reading.many (· != .symbol .rightBrace) (Item.readSome stmt)
  let _ ← Reading.expect (.symbol .rightBrace) .closingBlock
  pure { items := items.flatten, location }

namespace Stmt

/-- Reads a condition with its brackets. -/
def readCondition (opening closing : Expectation) : Reading (Expr Unit) := do
  let _ ← Reading.expect (.symbol .leftParen) opening
  let condition ← Expr.read
  let _ ← Reading.expect (.symbol .rightParen) closing
  pure condition

/-- Reads a statement that ends with a semicolon behind its expression. -/
def readExpression (l : Location) : Reading (Stmt Unit) := do
  let e ← Expr.read
  let _ ← Reading.expect (.symbol .semicolon) .endOfExpression
  pure (.expr e l)

/-- Reads a statement that starts with the keyword `k`, which is taken already.
Inner statements are read with `self`. -/
def readKeyword (self : Reading (Stmt Unit)) (l : Location) : Keyword → Reading (Stmt Unit)
  | .ifKw => do
    let condition ← readCondition .openingIf .closingIf
    let body ← self
    if ← Reading.accept (.keyword .elseKw) then
      let otherwise ← self
      pure (.ifElse condition body otherwise l)
    else pure (.ifThen condition body l)
  | .whileKw => do
    let condition ← readCondition .openingWhile .closingWhile
    let body ← self
    pure (.whileLoop condition body l)
  | .breakKw => do
    let _ ← Reading.expect (.symbol .semicolon) .endOfBreak
    pure (.breakLoop l)
  | .continueKw => do
    let _ ← Reading.expect (.symbol .semicolon) .endOfContinue
    pure (.continueLoop l)
  | _ => do
    if ← Reading.accept (.symbol .semicolon) then
      pure (.returnNothing l)
    else
      let e ← Expr.read
      let _ ← Reading.expect (.symbol .semicolon) .endOfReturn
      pure (.returnValue e l)

/-- Whether a keyword starts a statement. -/
def startsWith : Keyword → Bool
  | .ifKw | .whileKw | .breakKw | .continueKw | .returnKw => true
  | _ => false

/-- Reads a statement, nested at most `depth` deep. -/
def readWithin : Nat → Reading (Stmt Unit)
  | 0 => throw .expression
  | depth + 1 => do
    match ← Reading.next? with
    | some ⟨.symbol .leftBrace, _⟩ =>
      let b ← Block.readWith (readWithin depth)
      pure (.block b.items b.location)
    | some ⟨.symbol .semicolon, l⟩ =>
      Reading.advance
      pure (.empty l)
    | some ⟨.keyword k, l⟩ =>
      if startsWith k then
        Reading.advance
        readKeyword (readWithin depth) l k
      else if Decl.startsWith (.keyword k) then
        throw .statementBody
      else throw .expression
    | some ⟨_, l⟩ => readExpression l
    | none => throw .expression

/-- Reads a statement. Every level of nesting takes a token, so the number of
tokens bounds the depth. -/
def read : Reading (Stmt Unit) := fun tokens =>
  readWithin (tokens.length + 1) tokens

end Stmt

/-- Reads a block. -/
def Block.read : Reading (Block Unit) :=
  Block.readWith Stmt.read

end SysYFront
