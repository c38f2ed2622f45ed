import SysYFront.Expr.Basic

/-!
# SysYFront.Decl.Basic

Declarations of variables, one for every name of a declaration list. A string
literal as an initializer is a list of the numbers of its characters.
-/

namespace SysYFront

/-- What a variable is initialized with: an expression or a list in braces. -/
inductive Init (α : Type)
  | expr (e : Expr α)
  | list (items : List (Init α)) (location : Location)

/-- Where an initializer starts or, for an expression, where its node stands. -/
def Init.location {α : Type} : Init α → Location
  | expr e => e.location
  | list _ l => l

/-- The declaration of one variable. Besides the notes of its expressions it
carries one of its own. -/
structure Decl (α : Type) where
  name : String
  isConst : Bool
  base : Base
  dims : List (Expr α)
  init : Option (Init α)
  location : Location
  note : α

variable {α : Type}

mutual

/-- Equality of initializers, with expressions compared by `Expr.equals`. -/
def Init.equals (same : α → α → Bool) : Init α → Init α → Bool
  | .expr a, .expr b => a.equals same b
  | .list as l, .list bs k => Init.listEquals same as bs && l == k
  | _, _ => false

/-- Equality of lists of initializers. -/
def Init.listEquals (same : α → α → Bool) : List (Init α) → List (Init α) → Bool
  | [], [] => true
  | a :: as, b :: bs => Init.equals same a b && Init.listEquals same as bs
  | _, _ => false

end

/-- Equality of declarations, with expressions compared by `Expr.equals`. -/
def Decl.equals (same : α → α → Bool) (d e : Decl α) : Bool :=
  d.name == e.name && d.isConst == e.isConst && d.base == e.base &&
    Expr.listEquals same d.dims e.dims &&
    (match d.init, e.init with
      | none, none => true
      | some a, some b => a.equals same b
      | _, _ => false) &&
    d.location == e.location && same d.note e.note

end SysYFront
