/-!
# SysYFront.Number.Binary32

Single-precision numbers as exact mathematics. A finite number is
`± mantissa · 2 ^ exponent` with a natural mantissa; `decode` reads the three
fields of the bit pattern. Everything that has to be exact about floats (their
decimal text, their truncation to an integer) works on this form.
-/

namespace SysYFront.Number

/-- What a bit pattern stands for. -/
inductive Binary32
  | nan
  | infinite (negative : Bool)
  /-- The number `± mantissa · 2 ^ exponent`. -/
  | finite (negative : Bool) (mantissa : Nat) (exponent : Int)
  deriving DecidableEq, Repr

namespace Binary32

/-- Bits of the fraction field. -/
def fractionBits : Nat := 23

/-- The exponent of the smallest positive number, `2 ^ minExponent`. -/
def minExponent : Int := -149

/-- Reads sign, exponent field and fraction. An exponent field of zero has no
implicit leading one, and the highest field holds the infinities and NaN. -/
def decode (x : Float32) : Binary32 :=
  let bits := x.toBits.toNat
  let negative := bits >>> 31 == 1
  let field := bits >>> fractionBits % 256
  let fraction := bits % (1 <<< fractionBits)
  if field = 255 then
    if fraction = 0 then infinite negative else nan
  else if field = 0 then
    finite negative fraction minExponent
  else
    finite negative ((1 <<< fractionBits) + fraction) (minExponent + (field - 1 : Nat))

/-- The integer part of `mantissa · 2 ^ exponent`. -/
def floor (mantissa : Nat) (exponent : Int) : Nat :=
  if exponent < 0 then mantissa >>> exponent.natAbs else mantissa <<< exponent.natAbs

end Binary32

/-- The integer nearest to `v` that thirty-two bits can hold. -/
def clamp (v : Int) : Int32 :=
  Int32.ofInt (max Int32.minValue.toInt (min Int32.maxValue.toInt v))

/-- The integer part of a number, toward zero. Numbers out of range give the
nearest integer in range, and what is not a number gives zero. -/
def truncate (x : Float32) : Int32 :=
  match Binary32.decode x with
  | .nan => 0
  | .infinite true => Int32.minValue
  | .infinite false => Int32.maxValue
  | .finite true m q => clamp (-(Binary32.floor m q : Int))
  | .finite false m q => clamp (Binary32.floor m q)

/-- The single-precision number nearest to an integer, a tie to the even one. -/
def ofInt32 (n : Int32) : Float32 :=
  Float32.ofInt n.toInt

end SysYFront.Number
