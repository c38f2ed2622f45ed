import SysYFront.Scalar

/-!
# SysYFront.Operator

The operators of expressions and their values on constants.

A unary operator keeps the type of its operand. A binary operator works in the
type that both operands are promoted to, `float` as soon as one of them is, and
its result has that type: comparisons and logic give zero or one in it. Integer
arithmetic wraps, float arithmetic rounds to nearest, and both operands of the
logical operators are always evaluated.
-/

namespace SysYFront

/-- The operators with one operand, all written before it. -/
inductive UnaryOp
  | plus
  | neg
  | not
  deriving DecidableEq, Repr

/-- The operators with two operands, assignment apart. -/
inductive BinaryOp
  | add
  | sub
  | mul
  | div
  | mod
  | eq
  | ne
  | lt
  | le
  | gt
  | ge
  | and
  | or
  deriving DecidableEq, Repr

namespace UnaryOp

/-- How the operator is written. -/
def symbol : UnaryOp → String
  | plus => "+"
  | neg => "-"
  | not => "!"

/-- The value of the operator on a constant. -/
def eval : UnaryOp → Scalar → Scalar
  | plus, v => v
  | neg, .int n => .int (-n)
  | neg, .float x => .float (-x)
  | not, v => .ofBool v.base v.isZero

@[simp] theorem base_eval (op : UnaryOp) (v : Scalar) : (op.eval v).base = v.base := by
  cases op <;> cases v <;> rfl

end UnaryOp

/-- The type in which an operator works on operands of two types. -/
def Base.promote (a b : Base) : Base :=
  if a = .float ∨ b = .float then .float else .int

namespace BinaryOp

/-- How the operator is written. -/
def symbol : BinaryOp → String
  | add => "+"
  | sub => "-"
  | mul => "*"
  | div => "/"
  | mod => "%"
  | eq => "=="
  | ne => "!="
  | lt => "<"
  | le => "<="
  | gt => ">"
  | ge => ">="
  | and => "&&"
  | or => "||"

/-- The value of an operator on two integers. Quotients go toward zero and a
remainder has the sign of the dividend; neither exists for the divisor zero. -/
def evalInt? (a b : Int32) : BinaryOp → Option Int32
  | add => some (a + b)
  | sub => some (a - b)
  | mul => some (a * b)
  | div => if b = 0 then none else some (a / b)
  | mod => if b = 0 then none else some (a % b)
  | eq => truth (a = b)
  | ne => truth (a ≠ b)
  | lt => truth (a < b)
  | le => truth (a ≤ b)
  | gt => truth (a > b)
  | ge => truth (a ≥ b)
  | and => truth (a ≠ 0 ∧ b ≠ 0)
  | or => truth (a ≠ 0 ∨ b ≠ 0)
where
  /-- One for a proposition that holds, zero otherwise. -/
  truth (p : Prop) [Decidable p] : Option Int32 := some (if p then 1 else 0)

/-- The value of an operator on two floats. There is no remainder of floats. -/
def evalFloat? (a b : Float32) : BinaryOp → Option Float32
  | add => some (a + b)
  | sub => some (a - b)
  | mul => some (a * b)
  | div => some (a / b)
  | mod => none
  | eq => truth (a == b)
  | ne => truth (a != b)
  | lt => truth (decide (a < b))
  | le => truth (decide (a ≤ b))
  | gt => truth (decide (b < a))
  | ge => truth (decide (b ≤ a))
  | and => truth (a != 0 && b != 0)
  | or => truth (a != 0 || b != 0)
where
  /-- One for a comparison that holds, zero otherwise. -/
  truth (holds : Bool) : Option Float32 := some (if holds then 1 else 0)

/-- The value of an operator on two constants, in their promoted type. -/
def eval? (op : BinaryOp) : Scalar → Scalar → Option Scalar
  | .int a, .int b => (op.evalInt? a b).map .int
  | v, w => (op.evalFloat? v.asFloat w.asFloat).map .float

/-- A value of an operator has the promoted type of its operands. -/
theorem base_of_eval? {op : BinaryOp} {v w u : Scalar} (h : op.eval? v w = some u) :
    u.base = v.base.promote w.base := by
  cases v <;> cases w <;> simp only [eval?, Option.map_eq_some_iff] at h <;>
    obtain ⟨_, _, rfl⟩ := h <;> rfl

end BinaryOp

end SysYFront
