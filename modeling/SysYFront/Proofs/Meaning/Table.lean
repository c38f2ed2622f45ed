import SysYFront.ValueType

/-!
# SysYFront.Proofs.Meaning.Table

The values of constants, without the windows of the checker: a table is a shape with
the values of its elements in row-major order, and a row of it is a table of its own.
-/

namespace SysYFront

/-- The number of elements of a shape, however large it is. -/
def Shape.size (dims : List Int) : Nat :=
  (dims.map Int.toNat).foldr (· * ·) 1

@[simp] theorem Shape.size_nil : Shape.size [] = 1 := rfl

@[simp] theorem Shape.size_cons (d : Int) (dims : List Int) :
    Shape.size (d :: dims) = d.toNat * Shape.size dims := rfl

/-- The value of a constant: its extents and its elements in row-major order. -/
structure Table where
  dims : List Int
  cells : List Scalar
  deriving DecidableEq

namespace Table

/-- The table of a single value. -/
def scalar (v : Scalar) : Table := ⟨[], [v]⟩

/-- The value of a table without dimensions. -/
def value? (t : Table) : Option Scalar :=
  if t.dims = [] then t.cells.head? else none

/-- The table of the elements with first index `i`, if there are such. -/
def row? (t : Table) (i : Int) : Option Table :=
  match t.dims with
  | [] => none
  | d :: dims =>
    if 0 ≤ i ∧ i < d then
      some ⟨dims, (t.cells.drop (i.toNat * Shape.size dims)).take (Shape.size dims)⟩
    else none

end Table

end SysYFront
