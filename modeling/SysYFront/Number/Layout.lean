import SysYFront.Number.Shortest

/-!
# SysYFront.Number.Layout

The written form of single-precision numbers. The digits are the shortest that
read back; where they are written out in full and where with a power of ten is
the format's own decision, kept in one record.
-/

namespace SysYFront.Number

/-- The decisions of a float format. -/
structure Layout where
  /-- The least magnitude above zero that is written without an exponent. -/
  plainFrom : Float32
  /-- The first magnitude that is written with an exponent again. -/
  plainBelow : Float32
  exponentMark : String
  nan : String
  infinity : String

/-- Floats are written out in full from one ten-thousandth up to, not including,
`10 ^ 16`, with at least one digit after the point. -/
def Layout.standard : Layout where
  plainFrom := 1e-4
  plainBelow := 1e16
  exponentMark := "e"
  nan := "NaN"
  infinity := "inf"

/-- The digits of a natural number in base ten. -/
def decimalDigits (n : Nat) : List Char :=
  Nat.toDigits 10 n

/-- A decimal written out in full, with at least one digit on both sides of the
point: places that the digits do not reach hold zeros. -/
def Decimal.plain (d : Decimal) : List Char :=
  let digits := decimalDigits d.digits
  if d.exponent ≥ 0 then
    digits ++ List.replicate d.exponent.toNat '0' ++ ['.', '0']
  else
    let places := (-d.exponent).toNat
    let padded := List.replicate (places + 1 - digits.length) '0' ++ digits
    padded.take (padded.length - places) ++ '.' :: padded.drop (padded.length - places)

/-- A decimal with one digit before the point and a power of ten. The point is
left out if no digit follows it. -/
def Decimal.scientific (mark : String) (d : Decimal) : List Char :=
  let digits := decimalDigits d.digits
  let power := d.exponent + (digits.length - 1 : Nat)
  let fraction := match digits.drop 1 with
    | [] => []
    | ds => '.' :: ds
  digits.take 1 ++ fraction ++ mark.toList ++ (toString power).toList

/-- The text of a finite positive number. -/
def Layout.magnitude (f : Layout) (x : Float32) (d : Decimal) : List Char :=
  if f.plainFrom ≤ x ∧ x < f.plainBelow then d.plain else d.scientific f.exponentMark

/-- The text of a number. Zero keeps its sign, what is not a number has none. -/
def Layout.text (f : Layout) (x : Float32) : String :=
  let signed (negative : Bool) (text : String) := if negative then "-" ++ text else text
  match Binary32.decode x with
  | .nan => f.nan
  | .infinite negative => signed negative f.infinity
  | .finite negative 0 _ => signed negative "0.0"
  | .finite negative m q =>
    signed negative (String.ofList (f.magnitude x.abs (shortest m q)))

/-- The text of a float wherever this program writes one. -/
def floatText (x : Float32) : String :=
  Layout.standard.text x

end SysYFront.Number
