import SysYFront.Number.Layout

/-!
# SysYFront.Scalar

The base types of the language and the values of its two scalar types. A value
carries its type as a tag, so reading an `int` as a `float` is always a
conversion and never a second look at the same bits.
-/

namespace SysYFront

/-- The base types. Only a function can be `void`. -/
inductive Base
  | int
  | float
  | void
  deriving DecidableEq, Repr

/-- The keyword of a base type. -/
def Base.text : Base → String
  | int => "int"
  | float => "float"
  | void => "void"

/-- One value: a wrapping thirty-two bit integer or a single-precision float. -/
inductive Scalar
  | int (n : Int32)
  | float (x : Float32)
  deriving DecidableEq

namespace Scalar

/-- Zero of a base type: what a slot holds that nothing was stored in. -/
def zero : Base → Scalar
  | .float => float 0
  | .int | .void => int 0

instance : Inhabited Scalar := ⟨zero .int⟩

/-- The type of a value. -/
def base : Scalar → Base
  | int _ => .int
  | float _ => .float

/-- The value as an integer: a float loses its fraction, toward zero. -/
def asInt : Scalar → Int32
  | int n => n
  | float x => Number.truncate x

/-- The value as a float: an integer goes to the nearest one. -/
def asFloat : Scalar → Float32
  | int n => Number.ofInt32 n
  | float x => x

/-- The value as a slot of base type `b` holds it. -/
def convert (v : Scalar) : Base → Scalar
  | .int => int v.asInt
  | .float => float v.asFloat
  | .void => v

/-- Whether the value is zero; both float zeros are. -/
def isZero : Scalar → Bool
  | int n => n == 0
  | float x => x == 0

/-- Whether a condition with this value holds: every value but zero does. -/
def isTrue (v : Scalar) : Bool :=
  !v.isZero

/-- Zero or one in base type `b`, for the outcome of a comparison. -/
def ofBool (b : Base) (holds : Bool) : Scalar :=
  (int (if holds then 1 else 0)).convert b

/-- Equality of values as the language computes it: never between the two types,
and on floats the comparison by value, where zero equals minus zero and what is
not a number equals nothing. -/
def equals : Scalar → Scalar → Bool
  | int m, int n => m == n
  | float x, float y => x == y
  | _, _ => false

/-- The text of a value. -/
def text : Scalar → String
  | int n => toString n.toInt
  | float x => Number.floatText x

@[simp] theorem asInt_int (n : Int32) : (int n).asInt = n := rfl
@[simp] theorem base_zero_int : (zero .int).base = .int := rfl
@[simp] theorem base_zero_float : (zero .float).base = .float := rfl

/-- A converted value has the type it was converted to. -/
theorem base_convert (v : Scalar) (b : Base) (h : b ≠ .void) : (v.convert b).base = b := by
  cases b with
  | int => rfl
  | float => rfl
  | void => exact absurd rfl h

/-- A value that has the type already is not changed by conversion. -/
@[simp] theorem convert_base (v : Scalar) : v.convert v.base = v := by
  cases v <;> rfl

end Scalar

end SysYFront
