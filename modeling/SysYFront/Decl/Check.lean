import SysYFront.Decl.Layout

/-!
# SysYFront.Decl.Check

Checking declarations. Every extent must be known and positive, and the object must
be addressable. What initializes a constant or a global variable must be known, and
a constant keeps the table of its values. A name is declared behind its own
initializer, so it cannot be used there.
-/

namespace SysYFront

variable {α : Type}

/-- Checks one extent. It is known in the end, so it becomes an integer literal. -/
def Expr.checkExtent (c : Checker) (e : Expr α) : Except Diagnostic (Expr ValueType × Int) := do
  let e' ← e.check c
  match e'.value? with
  | none => report .nonConstantDimension e'.location
  | some v =>
    if v.asInt ≤ 0 then
      report (.nonPositiveDimension v.asInt.toInt) e'.location
    else
      pure (.constant (.int v.asInt) e'.location, v.asInt.toInt)

/-- Checks the extents of a declaration from the outermost on. -/
def Expr.checkExtents (c : Checker) :
    List (Expr α) → Except Diagnostic (List (Expr ValueType) × List Int)
  | [] => pure ([], [])
  | e :: es => do
    let (e', extent) ← e.checkExtent c
    let (es', extents) ← Expr.checkExtents c es
    pure (e' :: es', extent :: extents)

namespace Decl

/-- The type of a variable with the given leaves in its initializer. -/
def resolvedType (isConst : Bool) (base : Base) (dims : List Int) (count : Nat)
    (leaves : List Placed) : ValueType :=
  if isConst then
    ⟨true, true, base, dims, some ⟨Placed.cells base count leaves, 0⟩⟩
  else .place base dims

/-- Checks a declaration without declaring the name. -/
def resolve (d : Decl α) (c : Checker) : Except Diagnostic (Decl ValueType) :=
  if c.scopes.declaresHere d.name then
    report (.redefinition d.name) d.location
  else do
    let (dims, extents) ← Expr.checkExtents c d.dims
    match Shape.count? extents with
    | none => report (.arrayTooLarge d.name) d.location
    | some count =>
      let rule : InitRule := ⟨d.name, d.isConst || c.scopes.isGlobal⟩
      let (init, leaves) ← Init.layOut c rule extents d.init
      pure { d with dims, init, note := resolvedType d.isConst d.base extents count leaves }

/-- Checks a declaration and declares the name in the innermost scope. -/
def check (d : Decl α) : Checking (Decl ValueType) := do
  let d' ← Checking.inspect d.resolve
  modify (·.declare d'.name d'.note)
  pure d'

end Decl

end SysYFront
