import SysYFront.Stmt.Basic

/-!
# SysYFront.Function.Basic

Function definitions. A definition stands at its return type, a parameter at its
base type.
-/

namespace SysYFront

/-- A parameter as it is written. -/
structure Param (α : Type) where
  name : String
  base : Base
  /-- The extents that are written, the open one not among them. -/
  dims : List (Expr α)
  /-- Whether the first pair of brackets is empty, so that arrays of every
  outermost extent are accepted. -/
  isOpen : Bool
  location : Location

/-- A function definition. -/
structure Function (α : Type) where
  name : String
  returns : Base
  params : List (Param α)
  body : Block α
  location : Location

variable {α : Type}

/-- Equality of parameters, with expressions compared by `Expr.equals`. -/
def Param.equals (same : α → α → Bool) (p q : Param α) : Bool :=
  p.name == q.name && p.base == q.base && Expr.listEquals same p.dims q.dims &&
    p.isOpen == q.isOpen && p.location == q.location

/-- Equality of functions, with expressions compared by `Expr.equals`. -/
def Function.equals (same : α → α → Bool) (f g : Function α) : Bool :=
  f.name == g.name && f.returns == g.returns &&
    (f.params.length == g.params.length &&
      (f.params.zip g.params).all fun (p, q) => p.equals same q) &&
    (Item.listEquals same f.body.items g.body.items && f.body.location == g.body.location) &&
    f.location == g.location

end SysYFront
