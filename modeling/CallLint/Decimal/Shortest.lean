/-
Shortest decimals. Among the decimals that round to a binary number, `shortest` is the one with the fewest digits, and
of those the nearest; halfway between two it is the larger one.

The search goes from coarse decimal grids to fine ones. On each grid only the two neighbours of the number can be
nearest, and the number itself lies on the grid of its last binary place, so the search ends there at the latest.
-/
import CallLint.Decimal.Binary

namespace CallLint

/-- the decimals that round to a number: between two bounds, which belong to them or not -/
structure RoundingInterval where
  low : Fraction
  high : Fraction
  closed : Bool

namespace RoundingInterval

/-- Numbers that round to a positive binary number. Below a power of two the neighbour is half as far away. -/
def around (format : BinaryFormat) (b : Binary) : RoundingInterval :=
  let low : Binary :=
    if b.significand = Nat.pow 2 (format.precision - 1) then ⟨4 * b.significand - 1, b.exponent - 2⟩
    else ⟨2 * b.significand - 1, b.exponent - 1⟩
  let high : Binary := ⟨2 * b.significand + 1, b.exponent - 1⟩
  ⟨low.fraction, high.fraction, b.significand % 2 == 0⟩

def holds (i : RoundingInterval) (f : Fraction) : Bool :=
  (i.low.less f || (i.closed && i.low.equal f)) && (f.less i.high || (i.closed && f.equal i.high))

end RoundingInterval

/-- the nearest decimal of the grid `10 ^ exponent` in an interval around a value -/
def nearestOnGrid? (value : Fraction) (interval : RoundingInterval) (exponent : Int) : Option Decimal :=
  let scaled := value.scale 10 (-exponent)
  let below := scaled.floor
  let lower : Decimal := ⟨below, exponent⟩
  let upper : Decimal := ⟨below + 1, exponent⟩
  let nearLower : Bool := 2 * (scaled.num % scaled.den) < scaled.den
  match interval.holds lower.fraction, interval.holds upper.fraction with
  | true, true => some (if nearLower then lower else upper)
  | true, false => some lower
  | false, true => some upper
  | false, false => none

/-- the first grid with a decimal in the interval -/
def firstOnGrids (value : Fraction) (interval : RoundingInterval) : Nat → Int → Decimal
  | 0, _ => ⟨0, 0⟩
  | n + 1, exponent => (nearestOnGrid? value interval exponent).getD (firstOnGrids value interval n (exponent - 1))

/-- the shortest decimal that rounds to a binary number -/
def Binary.shortest (format : BinaryFormat) (b : Binary) : Decimal :=
  if b.significand = 0 then ⟨0, 0⟩
  else
    let interval := RoundingInterval.around format b
    let top := Nat.log2 (interval.high.floor + 1) + 1
    firstOnGrids b.fraction interval (top + (2 - b.exponent).toNat + 1) top

end CallLint
