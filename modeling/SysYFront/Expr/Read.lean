import SysYFront.Expr.Basic
import SysYFront.Reading

/-!
# SysYFront.Expr.Read

Reading expressions by binding power. An operator between two expressions binds
what stands left of it with its left power and what stands right of it with its
right power; a reader that was entered with a least power leaves every operator
that binds less to its caller. The operators with two operands associate to the
left, since their right power is the greater one, and assignment associates to
the right.

| operators           | left | right |
|---------------------|------|-------|
| `=`                 | 2    | 1     |
| `\|\|`              | 3    | 4     |
| `&&`                | 5    | 6     |
| `==` `!=`           | 7    | 8     |
| `<` `<=` `>` `>=`   | 9    | 10    |
| `+` `-`             | 11   | 12    |
| `*` `/` `%`         | 13   | 14    |
| unary `+` `-` `!`   |      | 15    |

Brackets behind an expression bind more than any operator.
-/

namespace SysYFront

/-- How tightly an operator binds, from the loosest on. -/
def BinaryOp.level : BinaryOp → Nat
  | or => 1
  | and => 2
  | eq | ne => 3
  | lt | le | gt | ge => 4
  | add | sub => 5
  | mul | div | mod => 6

/-- The unary operator that a symbol is in front of an operand. -/
def UnaryOp.ofSymbol? : Symbol → Option UnaryOp
  | .plus => some plus
  | .minus => some neg
  | .bang => some not
  | _ => none

/-- The operator with two operands that a symbol is between them. -/
def BinaryOp.ofSymbol? : Symbol → Option BinaryOp
  | .plus => some add
  | .minus => some sub
  | .star => some mul
  | .slash => some div
  | .percent => some mod
  | .equalEqual => some eq
  | .bangEqual => some ne
  | .less => some lt
  | .lessEqual => some le
  | .greater => some gt
  | .greaterEqual => some ge
  | .andAnd => some and
  | .orOr => some or
  | _ => none

/-- What can stand between two expressions and make one of them. -/
inductive Connective
  | assign
  | binary (op : BinaryOp)
  deriving DecidableEq, Repr

namespace Connective

/-- The connective that a symbol is. -/
def ofSymbol? (s : Symbol) : Option Connective :=
  if s = .equal then some assign else (BinaryOp.ofSymbol? s).map binary

/-- How tightly the connective binds what stands left of it. -/
def leftPower : Connective → Nat
  | assign => 2
  | binary op => 2 * op.level + 1

/-- How tightly the connective binds what stands right of it. -/
def rightPower : Connective → Nat
  | assign => 1
  | binary op => 2 * op.level + 2

/-- The node of the connective. -/
def node (c : Connective) (left right : Expr Unit) (l : Location) : Expr Unit :=
  match c with
  | assign => .assign left right l ()
  | binary op => .binary op left right l ()

end Connective

namespace Expr

/-- How tightly a unary operator binds its operand. -/
def unaryPower : Nat := 15

/-- Reads what an expression starts with: a literal, a name, an expression in
brackets, or a unary operator with its operand. Inner expressions are read with
`self`, given the least power. -/
def readOperand (self : Nat → Reading (Expr Unit)) : Reading (Expr Unit) := do
  match ← Reading.next? with
  | some ⟨.intLiteral n, l⟩ =>
    Reading.advance
    pure (.literal (.int n) l ())
  | some ⟨.floatLiteral x, l⟩ =>
    Reading.advance
    pure (.literal (.float x) l ())
  | some ⟨.name s, l⟩ =>
    Reading.advance
    pure (.var s l ())
  | some ⟨.symbol s, l⟩ =>
    match UnaryOp.ofSymbol? s with
    | some op =>
      Reading.advance
      let operand ← self unaryPower
      pure (.unary op operand l ())
    | none =>
      if s = .leftParen then
        Reading.advance
        let e ← self 0
        let _ ← Reading.expect (.symbol .rightParen) .closingGroup
        pure e
      else throw .expression
  | _ => throw .expression

/-- Reads the arguments of a call up to the closing bracket. -/
def readArguments (self : Nat → Reading (Expr Unit)) : Reading (List (Expr Unit)) := do
  if ← Reading.accept (.symbol .rightParen) then
    pure []
  else
    let args ← Reading.separated (.symbol .comma) (self 0)
    let _ ← Reading.expect (.symbol .rightParen) .closingArguments
    pure args

/-- Reads on behind the expression `e`, with at most `n` further operators or
brackets: whatever binds at least with power `least` becomes part of it. -/
def extend (self : Nat → Reading (Expr Unit)) (least : Nat) :
    Nat → Expr Unit → Reading (Expr Unit)
  | 0, e => pure e
  | n + 1, e => do
    match ← Reading.next? with
    | some ⟨.symbol .leftBracket, l⟩ =>
      Reading.advance
      let i ← self 0
      let _ ← Reading.expect (.symbol .rightBracket) .closingIndex
      extend self least n (.index e i l ())
    | some ⟨.symbol .leftParen, l⟩ =>
      Reading.advance
      let args ← readArguments self
      extend self least n (.call e args l ())
    | some ⟨.symbol s, l⟩ =>
      match Connective.ofSymbol? s with
      | some c =>
        if c.leftPower < least then
          pure e
        else
          Reading.advance
          let right ← self c.rightPower
          extend self least n (c.node e right l)
      | none => pure e
    | _ => pure e

/-- Reads an expression of which all operators bind at least with power `least`,
nested at most `depth` deep. -/
def readWithin : Nat → Nat → Reading (Expr Unit)
  | 0, _ => throw .expression
  | depth + 1, least => do
    let e ← readOperand (readWithin depth)
    let tokens ← get
    extend (readWithin depth) least tokens.length e

/-- Reads an expression. Every level of nesting takes a token, so the number of
tokens bounds the depth. -/
def read : Reading (Expr Unit) := fun tokens =>
  readWithin (tokens.length + 1) 0 tokens

end Expr

end SysYFront
