import SysYFront.Decl.Basic
import SysYFront.Expr.Check

/-!
# SysYFront.Decl.Layout

Where the values of an initializer go. The elements of an array lie in row-major
order. In a list in braces a bare expression goes to the next element; a list
inside it first moves on to the next boundary of the inner arrays and then stands
for exactly one of them. Elements that nothing goes to are zero.

Laying out an initializer checks it and gives, besides the checked tree, its leaves
in order with the element that each goes to.
-/

namespace SysYFront

/-- A checked leaf of an initializer and the element that it goes to. -/
structure Placed where
  slot : Nat
  leaf : Expr ValueType

/-- The cells of a constant of `count` elements with the given leaves, each
converted to the base type. -/
def Placed.cells (base : Base) (count : Nat) (leaves : List Placed) : Array Scalar :=
  leaves.foldl
    (fun cells p =>
      match p.leaf.value? with
      | some v => cells.setIfInBounds p.slot (v.convert base)
      | none => cells)
    (Array.replicate count (.zero base))

/-- What the leaves of an initializer have to satisfy. -/
structure InitRule where
  /-- The variable that is initialized. -/
  name : String
  /-- Whether every value must be known. -/
  constant : Bool

/-- The least multiple of `step` that is not below `n`. -/
def roundUp (n step : Nat) : Nat :=
  (n + step - 1) / step * step

namespace Init

variable {α : Type}

/-- Checks one value of an initializer. -/
def checkLeaf (c : Checker) (rule : InitRule) (e : Expr α) :
    Except Diagnostic (Expr ValueType) := do
  let e' ← e.check c
  e'.requireScalar .initializer
  if rule.constant ∧ e'.value?.isNone then
    report (.nonConstantInitializer rule.name) e'.location
  else pure e'

mutual

/-- Lays out one item of a list for an array of shape `dims` whose first element is
`start`. The items before it take up the first `used` elements. Gives the checked
item, its leaves, and the number of elements that are used behind it. -/
def layItem (c : Checker) (rule : InitRule) (dims : List Int) (start used : Nat) :
    Init α → Except Diagnostic (Init ValueType × List Placed × Nat)
  | .expr e =>
    if used ≥ Shape.count dims then
      report (.tooManyInitializers rule.name) e.location
    else do
      let e' ← checkLeaf c rule e
      pure (.expr e', [⟨start + used, e'⟩], used + 1)
  | .list items l =>
    let boundary := roundUp used (Shape.stride dims)
    if dims.length = 1 then
      report (.excessiveBraces rule.name) l
    else if boundary ≥ Shape.count dims then
      report (.tooManyInitializers rule.name) l
    else do
      let (items', leaves) ← layItems c rule (dims.drop 1) (start + boundary) 0 items
      pure (.list items' l, leaves, boundary + Shape.stride dims)

/-- Lays out the items of a list for an array of shape `dims` whose first element
is `start`. The items before these take up the first `used` elements. -/
def layItems (c : Checker) (rule : InitRule) (dims : List Int) (start used : Nat) :
    List (Init α) → Except Diagnostic (List (Init ValueType) × List Placed)
  | [] => pure ([], [])
  | item :: items => do
    let (item', here, used') ← layItem c rule dims start used item
    let (items', leaves) ← layItems c rule dims start used' items
    pure (item' :: items', here ++ leaves)

end

/-- Lays out the initializer of a variable of shape `dims`. A scalar takes one
expression and an array a list in braces. -/
def layOut (c : Checker) (rule : InitRule) (dims : List Int) (init : Option (Init α)) :
    Except Diagnostic (Option (Init ValueType) × List Placed) :=
  match init, dims with
  | none, _ => pure (none, [])
  | some (.expr e), [] => do
    let e' ← checkLeaf c rule e
    pure (some (.expr e'), [⟨0, e'⟩])
  | some (.expr e), _ :: _ => report (.unbracedArray rule.name) e.location
  | some (.list _ l), [] => report (.bracedScalar rule.name) l
  | some (.list items l), _ :: _ => do
    let (items', leaves) ← layItems c rule dims 0 0 items
    pure (some (.list items' l), leaves)

end Init

end SysYFront
