import SysYFront.Diagnostic
import SysYFront.Expr.Basic
import SysYFront.Token.Piece

/-!
# SysYFront.Proofs.Arithmetic.IntExpr

Integer expressions, as they are written and as they are meant. An expression is written with
every compound operand in brackets, a negative literal as a minus sign and its magnitude. Its
value is an integer of two's complement arithmetic with thirty-two bits: both operands of an
operator are evaluated, the left one first, and the first division or remainder by zero ends
the evaluation at its operator.

Nothing here knows of binding powers or of folding.
-/

namespace SysYFront

/-- An expression over integer literals. -/
inductive IntExpr
  | literal (n : Int32)
  | unary (op : UnaryOp) (e : IntExpr)
  | binary (op : BinaryOp) (a b : IntExpr)
  deriving DecidableEq

/-- How expressions are laid out. -/
structure Layout where
  /-- What stands on either side of an operator with two operands. -/
  gap : List Char
  /-- Whether an expression that is no literal stands in brackets as a whole, too. -/
  bracketed : Bool
  blank : ∀ c ∈ gap, Token.isBlank c = true

namespace IntExpr

/-! ### Text -/

def isCompound : IntExpr → Bool
  | literal _ => false
  | unary .. | binary .. => true

/-- The decimal digits of a literal, behind a minus sign if it is negative. -/
def literalText (n : Int32) : List Char :=
  if n < 0 then '-' :: Nat.toDigits 10 n.toInt.natAbs else Nat.toDigits 10 n.toInt.natAbs

/-- A text, in brackets if there are any. -/
def enclose (brackets : Bool) (text : List Char) : List Char :=
  if brackets then '(' :: text ++ [')'] else text

/-- Where a text starts that is enclosed at `l`. -/
def inside (brackets : Bool) (l : Location) : Location :=
  if brackets then l.after '(' else l

/-- The text of an expression, without brackets around it. -/
def text (s : Layout) : IntExpr → List Char
  | literal n => literalText n
  | unary op e => op.symbol.toList ++ enclose e.isCompound (e.text s)
  | binary op a b =>
    enclose a.isCompound (a.text s) ++ s.gap ++ op.symbol.toList ++ s.gap ++
      enclose b.isCompound (b.text s)

/-- The text of an expression as an operand. -/
def operandText (s : Layout) (e : IntExpr) : List Char :=
  enclose e.isCompound (e.text s)

/-- Where the operator behind the left operand `a` stands, if `a` starts at `l`. -/
def behind (s : Layout) (a : IntExpr) (l : Location) : Location :=
  l.past (a.operandText s ++ s.gap)

/-- Where the operand behind a symbol at `l` starts. -/
def nextTo (s : Layout) (symbol : String) (l : Location) : Location :=
  l.past (symbol.toList ++ s.gap)

/-- The declaration of a constant with an expression as its initializer. -/
def source (s : Layout) (e : IntExpr) : String :=
  "const int x = " ++ String.ofList (enclose (s.bracketed && e.isCompound) (e.text s)) ++ ";"

/-- Where the text of the expression starts in its declaration. -/
def start (s : Layout) (e : IntExpr) : Location :=
  inside (s.bracketed && e.isCompound) (Location.start.past "const int x = ".toList)

/-! ### Meaning -/

/-- The integer that the lowest thirty-two bits of `x` stand for in two's complement. -/
def wrap (x : Int) : Int :=
  x.bmod Int32.size

/-- One for a proposition that holds, zero otherwise. -/
def truth (p : Prop) [Decidable p] : Int :=
  if p then 1 else 0

def unaryValue : UnaryOp → Int → Int
  | .plus, x => x
  | .neg, x => wrap (-x)
  | .not, x => truth (x = 0)

/-- The value of an operator at `l`. -/
def binaryValue (op : BinaryOp) (x y : Int) (l : Location) : Except Diagnostic Int :=
  match op with
  | .add => pure (wrap (x + y))
  | .sub => pure (wrap (x - y))
  | .mul => pure (wrap (x * y))
  | .div => if y = 0 then report .divisionByZero l else pure (wrap (x.tdiv y))
  | .mod => if y = 0 then report .moduloByZero l else pure (x.tmod y)
  | .eq => pure (truth (x = y))
  | .ne => pure (truth (x ≠ y))
  | .lt => pure (truth (x < y))
  | .le => pure (truth (x ≤ y))
  | .gt => pure (truth (x > y))
  | .ge => pure (truth (x ≥ y))
  | .and => pure (truth (x ≠ 0 ∧ y ≠ 0))
  | .or => pure (truth (x ≠ 0 ∨ y ≠ 0))

/-- The value of an expression whose text starts at `l`, or the first division by zero. -/
def eval (s : Layout) : IntExpr → Location → Except Diagnostic Int
  | literal n, _ => pure n.toInt
  | unary op e, l => do
    let x ← e.eval s (inside e.isCompound (l.past op.symbol.toList))
    pure (unaryValue op x)
  | binary op a b, l => do
    let k := behind s a l
    let x ← a.eval s (inside a.isCompound l)
    let y ← b.eval s (inside b.isCompound (nextTo s op.symbol k))
    binaryValue op x y k

end IntExpr

end SysYFront
