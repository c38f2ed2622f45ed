import SysYFront.Location
import SysYFront.Operator
import SysYFront.ValueType

/-!
# SysYFront.Expr.Basic

Expressions. Every node stands at a place and carries a note of type `α`: nothing
(`Unit`) as long as the tree is only read, the node's type (`ValueType`) once it
has been checked. The place of an operation is that of its operator, of a call
and of an index that of the opening bracket. Brackets around an expression leave
no node.
-/

namespace SysYFront

/-- An expression whose nodes carry notes of type `α`. -/
inductive Expr (α : Type)
  | var (name : String) (location : Location) (note : α)
  | literal (value : Scalar) (location : Location) (note : α)
  | unary (op : UnaryOp) (operand : Expr α) (location : Location) (note : α)
  | binary (op : BinaryOp) (left right : Expr α) (location : Location) (note : α)
  | assign (target value : Expr α) (location : Location) (note : α)
  | call (callee : Expr α) (args : List (Expr α)) (location : Location) (note : α)
  | index (array subscript : Expr α) (location : Location) (note : α)

namespace Expr

variable {α : Type}

instance [Inhabited α] : Inhabited (Expr α) :=
  ⟨.literal default default default⟩

/-- Where a node stands. -/
def location : Expr α → Location
  | var _ l _ | literal _ l _ | unary _ _ l _ | binary _ _ _ l _ | assign _ _ l _
  | call _ _ l _ | index _ _ l _ => l

/-- What a node carries. -/
def note : Expr α → α
  | var _ _ n | literal _ _ n | unary _ _ _ n | binary _ _ _ _ n | assign _ _ _ n
  | call _ _ _ n | index _ _ _ n => n

/-- The value of a literal. -/
def value? : Expr α → Option Scalar
  | literal v _ _ => some v
  | _ => none

/-- A checked literal. -/
def constant (v : Scalar) (l : Location) : Expr ValueType :=
  literal v l (.constant v)

@[simp] theorem location_constant (v : Scalar) (l : Location) : (constant v l).location = l := rfl
@[simp] theorem note_constant (v : Scalar) (l : Location) : (constant v l).note = .constant v := rfl
@[simp] theorem value?_constant (v : Scalar) (l : Location) : (constant v l).value? = some v := rfl

mutual

/-- Equality of trees, place by place and note by note, where values are compared
by their own equality. -/
def equals (same : α → α → Bool) : Expr α → Expr α → Bool
  | var a l m, var b k n => a == b && l == k && same m n
  | literal v l m, literal w k n => v.equals w && l == k && same m n
  | unary o a l m, unary p b k n => o == p && equals same a b && l == k && same m n
  | binary o a b l m, binary p c d k n =>
    o == p && equals same a c && equals same b d && l == k && same m n
  | assign a b l m, assign c d k n =>
    equals same a c && equals same b d && l == k && same m n
  | call a as l m, call b bs k n =>
    equals same a b && listEquals same as bs && l == k && same m n
  | index a b l m, index c d k n =>
    equals same a c && equals same b d && l == k && same m n
  | _, _ => false

/-- Equality of lists of trees. -/
def listEquals (same : α → α → Bool) : List (Expr α) → List (Expr α) → Bool
  | [], [] => true
  | a :: as, b :: bs => equals same a b && listEquals same as bs
  | _, _ => false

end

end Expr

end SysYFront
