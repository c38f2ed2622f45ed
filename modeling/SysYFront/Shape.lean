/-!
# SysYFront.Shape

Shapes of arrays: lists of extents, outermost first, the empty list for a scalar.
The elements of an array lie one behind the other in row-major order, so a shape
has a number of elements, and a step along its first dimension skips the elements
of one inner array. Extents are integers because a parameter whose outermost
extent is left open carries `-1` there; such an extent counts for no storage.
-/

namespace SysYFront.Shape

/-- The extent of a parameter's outermost dimension that is left open. -/
def openExtent : Int := -1

/-- Bytes of one element of either scalar type. -/
def elementSize : Nat := 4

/-- The greatest object, in bytes, that a signed thirty-two bit offset reaches. -/
def maxObjectSize : Nat := 2147483647

/-- Counts stop at this number, the greatest of sixty-four bits. -/
def maxCount : Nat := UInt64.size - 1

/-- The number of elements of a shape, stopping at `maxCount`. An extent below
zero counts as zero. -/
def count (dims : List Int) : Nat :=
  dims.foldl (fun n d => min (n * d.toNat) maxCount) 1

/-- The number of elements of a shape whose object can be addressed. The product
is taken from the left and must stay countable at every step. -/
def count? (dims : List Int) : Option Nat :=
  match dims.foldlM (fun n d => if n * d.toNat ≤ maxCount then some (n * d.toNat) else none) 1 with
  | some n => if n * elementSize ≤ maxObjectSize then some n else none
  | none => none

/-- Elements that one step along the first dimension skips. -/
def stride (dims : List Int) : Nat :=
  count (dims.drop 1)

/-- Whether `i` is an index of the first dimension. An open extent accepts every
index that is not negative, and a scalar accepts none. -/
def accepts (dims : List Int) (i : Int) : Bool :=
  match dims with
  | [] => false
  | d :: _ => if d < 0 then 0 ≤ i else 0 ≤ i && i < d

/-- The brackets of a shape, empty ones for an open extent. -/
def text (dims : List Int) : String :=
  String.join (dims.map fun d => if d < 0 then "[]" else "[" ++ toString d ++ "]")

@[simp] theorem count_nil : count [] = 1 := rfl
@[simp] theorem stride_nil : stride [] = 1 := rfl

end SysYFront.Shape
