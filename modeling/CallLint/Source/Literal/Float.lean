/-
Floating point literals. A literal counts as its text in a string concatenation: the shortest decimal that denotes the
same number, positional from 0.001 up to ten million, and with an exponent outside of that. A hexadecimal literal counts
as its digits in the source.
-/
import CallLint.Decimal.Shortest
import CallLint.Text.Split
import CallLint.Unit.Literal

namespace CallLint

def zeros (n : Nat) : List Char :=
  List.replicate n '0'

namespace Decimal

def digitList (d : Decimal) : List Char :=
  Nat.toDigits 10 d.digits

/-- positional notation, with a point and at least one digit on both sides of it -/
def positional (d : Decimal) : List Char :=
  let ds := d.digitList
  if 0 ≤ d.exponent then ds ++ zeros d.exponent.toNat ++ ['.', '0']
  else
    let places := (-d.exponent).toNat
    if places < ds.length then ds.take (ds.length - places) ++ ['.'] ++ ds.drop (ds.length - places)
    else ['0', '.'] ++ zeros (places - ds.length) ++ ds

/-- one digit before the point, at least one after it, and the exponent -/
def scientific (d : Decimal) : List Char :=
  let ds := d.digitList
  let fraction := if ds.length = 1 then ['0'] else ds.drop 1
  ds.take 1 ++ ['.'] ++ fraction ++ ['E'] ++ (toString (d.exponent + ds.length - 1)).toList

end Decimal

/-- whether a number is written without an exponent -/
def isPositional (f : Fraction) : Bool :=
  f.num == 0 || (!f.less ⟨1, 1000⟩ && f.less ⟨10000000, 1⟩)

/-- a decimal's text as a number of a format -/
def floatText (format : BinaryFormat) (d : Decimal) : List Char :=
  match format.nearest? d with
  | none => "Infinity".toList
  | some b =>
    let shortest := b.shortest format
    if isPositional b.fraction then shortest.positional else shortest.scientific

def isFloatSuffix (c : Char) : Bool :=
  c == 'f' || c == 'F' || c == 'd' || c == 'D'

namespace Literal

/-- value of a floating point literal -/
def ofFloatText (text : String) : Literal :=
  let cleaned := text.toList.filter (· != '_')
  let format : BinaryFormat :=
    match cleaned.getLast? with
    | some 'f' => .single
    | some 'F' => .single
    | _ => .double
  let digits := (cleaned.reverse.dropWhile isFloatSuffix).reverse
  .float (String.ofList (((Decimal.read? digits).map (floatText format)).getD digits))

end Literal

end CallLint
