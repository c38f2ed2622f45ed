import SysYFront.Decl.Basic

/-!
# SysYFront.Stmt.Basic

Statements and blocks. A statement stands at its first token, a block at its
opening brace.
-/

namespace SysYFront

mutual

/-- A statement. -/
inductive Stmt (α : Type)
  | empty (location : Location)
  | expr (e : Expr α) (location : Location)
  | block (items : List (Item α)) (location : Location)
  | ifThen (condition : Expr α) (body : Stmt α) (location : Location)
  | ifElse (condition : Expr α) (body otherwise : Stmt α) (location : Location)
  | whileLoop (condition : Expr α) (body : Stmt α) (location : Location)
  | breakLoop (location : Location)
  | continueLoop (location : Location)
  | returnNothing (location : Location)
  | returnValue (e : Expr α) (location : Location)

/-- What a block holds: declarations and statements in any order. -/
inductive Item (α : Type)
  | decl (d : Decl α)
  | stmt (s : Stmt α)

end

/-- The items between two braces. -/
structure Block (α : Type) where
  items : List (Item α)
  location : Location

variable {α : Type}

/-- Where a statement stands. -/
def Stmt.location : Stmt α → Location
  | empty l | expr _ l | block _ l | ifThen _ _ l | ifElse _ _ _ l | whileLoop _ _ l
  | breakLoop l | continueLoop l | returnNothing l | returnValue _ l => l

mutual

/-- Equality of statements, with expressions compared by `Expr.equals`. -/
def Stmt.equals (same : α → α → Bool) : Stmt α → Stmt α → Bool
  | .empty l, .empty k => l == k
  | .expr a l, .expr b k => a.equals same b && l == k
  | .block as l, .block bs k => Item.listEquals same as bs && l == k
  | .ifThen a s l, .ifThen b t k => a.equals same b && Stmt.equals same s t && l == k
  | .ifElse a s s' l, .ifElse b t t' k =>
    a.equals same b && Stmt.equals same s t && Stmt.equals same s' t' && l == k
  | .whileLoop a s l, .whileLoop b t k => a.equals same b && Stmt.equals same s t && l == k
  | .breakLoop l, .breakLoop k => l == k
  | .continueLoop l, .continueLoop k => l == k
  | .returnNothing l, .returnNothing k => l == k
  | .returnValue a l, .returnValue b k => a.equals same b && l == k
  | _, _ => false

/-- Equality of block items. -/
def Item.equals (same : α → α → Bool) : Item α → Item α → Bool
  | .decl d, .decl e => d.equals same e
  | .stmt s, .stmt t => Stmt.equals same s t
  | _, _ => false

/-- Equality of lists of block items. -/
def Item.listEquals (same : α → α → Bool) : List (Item α) → List (Item α) → Bool
  | [], [] => true
  | a :: as, b :: bs => Item.equals same a b && Item.listEquals same as bs
  | _, _ => false

end

end SysYFront
