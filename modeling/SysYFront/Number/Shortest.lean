import SysYFront.Number.Binary32

/-!
# SysYFront.Number.Shortest

The fewest decimal digits that read back as a given single-precision number.

A positive number `m · 2 ^ q` is what every real within half a step of it rounds
to; the two ends belong to that interval exactly when `m` is even. On the grid of
decimals with `n` digits only the two neighbours of the number can be in the
interval if any point of the grid is, so the digits are found by trying
`n = 1, 2, …`: the first grid with a hit wins, of two hits the nearer one, and
the greater one in a tie. All comparisons are between natural numbers.
-/

namespace SysYFront.Number

/-- The decimal `digits · 10 ^ exponent`. -/
structure Decimal where
  digits : Nat
  exponent : Int
  deriving DecidableEq, Repr

/-- A binary number `mantissa · 2 ^ exponent` in a form that is compared with
decimals: `Dyadic.cmp`. -/
structure Dyadic where
  mantissa : Nat
  exponent : Int
  deriving DecidableEq, Repr

/-- Both sides of a comparison of `x` with `d`, scaled to natural numbers: the
powers with a negative exponent are moved to the other side. -/
def Dyadic.scaled (x : Dyadic) (d : Decimal) : Nat × Nat :=
  (x.mantissa <<< x.exponent.toNat * Nat.pow 10 (-d.exponent).toNat,
   (d.digits * Nat.pow 10 d.exponent.toNat) <<< (-x.exponent).toNat)

/-- How `x` compares with the decimal `d`. -/
def Dyadic.cmp (x : Dyadic) (d : Decimal) : Ordering :=
  compare (x.scaled d).1 (x.scaled d).2

/-- The number of grid steps `10 ^ exponent` in `x`, rounded down. -/
def Dyadic.stepsBelow (x : Dyadic) (exponent : Int) : Nat :=
  (x.scaled ⟨1, exponent⟩).1 / (x.scaled ⟨1, exponent⟩).2

/-- The reals that round to one number, as bounds in quarters of its last place. -/
structure Interval where
  low : Dyadic
  value : Dyadic
  high : Dyadic
  /-- Whether the two ends themselves round to the number. -/
  closed : Bool
  deriving DecidableEq, Repr

/-- The interval around the positive number `m · 2 ^ q`. The step below a power
of two is half of the step above it, except at the least exponent. -/
def Interval.around (m : Nat) (q : Int) : Interval :=
  let narrow := m = 1 <<< Binary32.fractionBits ∧ q ≠ Binary32.minExponent
  { low := ⟨4 * m - (if narrow then 1 else 2), q - 2⟩
    value := ⟨4 * m, q - 2⟩
    high := ⟨4 * m + 2, q - 2⟩
    closed := m % 2 = 0 }

/-- Whether the decimal `d` rounds to the number. -/
def Interval.holds (i : Interval) (d : Decimal) : Bool :=
  match i.low.cmp d, i.high.cmp d with
  | .lt, .gt => true
  | .eq, _ => i.closed
  | _, .eq => i.closed
  | _, _ => false

/-- Whether `x` lies at least half a step above the lower of two neighbours:
whether the upper one is as near as the lower one, or nearer. -/
def Dyadic.upperHalf (x : Dyadic) (lower : Decimal) : Bool :=
  let (v, d) := { x with mantissa := 2 * x.mantissa }.scaled { lower with digits := 2 * lower.digits + 1 }
  v ≥ d

/-- The point of the grid `10 ^ exponent` that stands for the number, if one of
the number's two neighbours on the grid does. -/
def Interval.onGrid? (i : Interval) (exponent : Int) : Option Decimal :=
  let lower : Decimal := ⟨i.value.stepsBelow exponent, exponent⟩
  let upper : Decimal := ⟨lower.digits + 1, exponent⟩
  match i.holds lower, i.holds upper with
  | true, true => some (if i.value.upperHalf lower then upper else lower)
  | true, false => some lower
  | false, true => some upper
  | false, false => none

/-- The least `p` with `x < 10 ^ p`, among the decimal exponents that a
single-precision number can have. -/
def Dyadic.decimalPoint (x : Dyadic) : Int :=
  let candidates := (List.range 90).map fun (n : Nat) => (n : Int) - 45
  (candidates.find? fun p => x.cmp ⟨1, p⟩ == .lt).getD 45

/-- Nine digits always suffice to tell one single-precision number from its
neighbours. -/
def maxDigits : Nat := 9

/-- Takes the zeros off the end of the digits. -/
def Decimal.trim (d : Decimal) : Decimal :=
  if 0 < d.digits ∧ d.digits % 10 = 0 then
    Decimal.trim ⟨d.digits / 10, d.exponent + 1⟩
  else d
termination_by d.digits
decreasing_by omega

/-- The shortest decimal that reads back as the positive number `m · 2 ^ q`,
nearest to it among those, without zeros at its end. -/
def shortest (m : Nat) (q : Int) : Decimal :=
  let i := Interval.around m q
  let point := i.value.decimalPoint
  let lengths := (List.range maxDigits).map fun (n : Nat) => (n : Int) + 1
  let found := lengths.findSome? fun n => i.onGrid? (point - n)
  (found.getD ⟨i.value.stepsBelow (point - maxDigits), point - maxDigits⟩).trim

end SysYFront.Number
