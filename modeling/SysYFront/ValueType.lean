import SysYFront.Scalar
import SysYFront.Shape

/-!
# SysYFront.ValueType

What is known about a name or an expression: whether it is constant, whether it
denotes storage, its base type and shape, and for constants a window on the table
of their values.

A constant array owns one table, flat and in row-major order. Indexing it gives a
window on the same table, one dimension fewer and further on by the index times
the stride, so no element is ever copied.
-/

namespace SysYFront

/-- A place in a table of constants. -/
structure Window where
  cells : Array Scalar
  offset : Nat
  deriving DecidableEq

/-- Equality of tables by the values' own equality. -/
def Window.equals (v w : Window) : Bool :=
  v.offset == w.offset && v.cells.size == w.cells.size &&
    (v.cells.zip w.cells).all fun (a, b) => a.equals b

/-- The type of a name or an expression. -/
structure ValueType where
  isConst : Bool
  /-- Whether a value of the type is a place that could be stored to. -/
  isPlace : Bool
  base : Base
  dims : List Int
  window : Option Window
  deriving DecidableEq

namespace ValueType

/-- A value that is computed: neither constant nor a place, and one scalar. -/
def scalar (base : Base) : ValueType :=
  ⟨false, false, base, [], none⟩

/-- A variable of the given shape: a place whose value is not known. -/
def place (base : Base) (dims : List Int) : ValueType :=
  ⟨false, true, base, dims, none⟩

/-- A literal. -/
def constant (v : Scalar) : ValueType :=
  ⟨true, false, v.base, [], some ⟨#[v], 0⟩⟩

/-- The type with a table of its own. -/
def withCells (t : ValueType) (cells : Array Scalar) : ValueType :=
  { t with window := some ⟨cells, 0⟩ }

def isArray (t : ValueType) : Bool :=
  !t.dims.isEmpty

def isVoid (t : ValueType) : Bool :=
  t.base == .void

/-- Elements of the type. -/
def count (t : ValueType) : Nat :=
  Shape.count t.dims

/-- Elements that one step along the first dimension skips. -/
def stride (t : ValueType) : Nat :=
  Shape.stride t.dims

/-- Where the type's elements start in its table; zero without a table. -/
def offset (t : ValueType) : Nat :=
  (t.window.map Window.offset).getD 0

/-- The values of the type's elements, if it has a table that reaches so far. -/
def elements? (t : ValueType) : Option (List Scalar) :=
  t.window.bind fun w =>
    if w.offset + t.count ≤ w.cells.size then
      some (w.cells.extract w.offset (w.offset + t.count)).toList
    else none

/-- The value of a scalar constant. -/
def value? (t : ValueType) : Option Scalar :=
  if t.isArray then none else t.elements?.bind List.head?

/-- The element or inner array at a constant index, if there is a table and the
index is in range: a window on the same table. -/
def at? (t : ValueType) (i : Int) : Option ValueType :=
  match t.window with
  | some w =>
    if Shape.accepts t.dims i then
      some { t with
        dims := t.dims.drop 1
        window := some { w with offset := w.offset + i.toNat * t.stride } }
    else none
  | none => none

/-- The type of an element at an index that only the running program knows. Its
value is unknown, and it can be stored to unless the array is constant. -/
def element (t : ValueType) : ValueType :=
  ⟨false, t.isPlace && !t.isConst, t.base, t.dims.drop 1, none⟩

/-- Whether both types look at tables with the same values. A constant and the elements and inner
arrays that indexing it gives do; so do two constants that were declared with equal values, as a
table has no identity beyond what it holds. -/
def sharesTable (t u : ValueType) : Bool :=
  match t.window, u.window with
  | some v, some w => v.cells == w.cells
  | _, _ => false

/-- Equality of types. Tables are compared as a whole, by the equality of their
values, so a type with a value that is not a number does not equal itself. -/
def equals (t u : ValueType) : Bool :=
  t.isConst == u.isConst && t.isPlace == u.isPlace && t.base == u.base && t.dims == u.dims &&
    match t.window, u.window with
    | none, none => true
    | some v, some w => v.equals w
    | _, _ => false

/-- The type as messages name it. -/
def text (t : ValueType) : String :=
  (if t.isConst then "const " else "") ++ t.base.text ++ Shape.text t.dims

@[simp] theorem value?_constant (v : Scalar) : (constant v).value? = some v := by
  rfl

/-- Indexing copies no elements. -/
theorem sharesTable_of_at? {t u : ValueType} {i : Int} (h : t.at? i = some u) :
    u.sharesTable t = true := by
  unfold at? at h
  split at h
  · rename_i w hw
    split at h
    · obtain rfl := Option.some.inj h
      simp [sharesTable, hw]
    · cases h
  · cases h

end ValueType

end SysYFront
