/-
Binary floating point numbers as an integer significand and a power of two, and rounding of decimals to the nearest of
them; a tie goes to the even significand. All arithmetic is exact.
-/
import CallLint.Decimal.Basic

namespace CallLint

/-- a binary floating point format: bits of the significand and bounds on the exponent of its unit -/
structure BinaryFormat where
  precision : Nat
  minExponent : Int
  maxExponent : Int
deriving DecidableEq, Repr

namespace BinaryFormat

def single : BinaryFormat := ⟨24, -149, 104⟩

def double : BinaryFormat := ⟨53, -1074, 971⟩

end BinaryFormat

/-- the number `significand * 2 ^ exponent` -/
structure Binary where
  significand : Nat
  exponent : Int
deriving DecidableEq, Repr, Inhabited

/-- a positive fraction -/
structure Fraction where
  num : Nat
  den : Nat
deriving DecidableEq, Repr

namespace Fraction

/-- the fraction times a power of `base` -/
def scale (f : Fraction) (base : Nat) (exponent : Int) : Fraction :=
  if exponent < 0 then ⟨f.num, f.den * Nat.pow base (-exponent).toNat⟩ else ⟨f.num * Nat.pow base exponent.toNat, f.den⟩

def floor (f : Fraction) : Nat :=
  f.num / f.den

/-- the nearest integer; halfway between two, the even one -/
def roundEven (f : Fraction) : Nat :=
  let q := f.num / f.den
  let twice := 2 * (f.num % f.den)
  if twice < f.den then q else if f.den < twice then q + 1 else if q % 2 = 0 then q else q + 1

def less (a b : Fraction) : Bool :=
  a.num * b.den < b.num * a.den

def equal (a b : Fraction) : Bool :=
  a.num * b.den == b.num * a.den

end Fraction

def Decimal.fraction (d : Decimal) : Fraction :=
  Fraction.scale ⟨d.digits, 1⟩ 10 d.exponent

def Binary.fraction (b : Binary) : Fraction :=
  Fraction.scale ⟨b.significand, 1⟩ 2 b.exponent

namespace BinaryFormat

/-- exponent of the unit in which a positive fraction has `precision` bits, or the least exponent -/
def unitExponent (format : BinaryFormat) (f : Fraction) : Int :=
  let e : Int := (Nat.log2 f.num : Int) - Nat.log2 f.den - format.precision
  let e := if (f.scale 2 (-e)).floor < Nat.pow 2 format.precision then e else e + 1
  max e format.minExponent

/-- the number of the format nearest to a positive fraction; none when that is infinite -/
def nearestFraction? (format : BinaryFormat) (f : Fraction) : Option Binary :=
  let e := format.unitExponent f
  let m := (f.scale 2 (-e)).roundEven
  let b : Binary := if m = Nat.pow 2 format.precision then ⟨Nat.pow 2 (format.precision - 1), e + 1⟩ else ⟨m, e⟩
  if format.maxExponent < b.exponent then none else some b

/-- The number of the format nearest to a decimal; none when that is infinite.

A decimal of at least `10 ^ n` is above `8 ^ n`, and one below `10 ^ (-n)` is below `8 ^ (-n)`; so very large and very
small ones are told by their digit counts alone. -/
def nearest? (format : BinaryFormat) (d : Decimal) : Option Binary :=
  let top : Int := d.exponent + d.width
  if d.digits = 0 then some ⟨0, 0⟩
  else if format.maxExponent + format.precision < 3 * (top - 1) then none
  else if 3 * top < format.minExponent - 1 then some ⟨0, 0⟩
  else format.nearestFraction? d.fraction

end BinaryFormat

end CallLint
