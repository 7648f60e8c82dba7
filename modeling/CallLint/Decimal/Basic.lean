/-
Decimal numbers as digits and a power of ten, and the reading of their usual notation: digits with at most one point
and an optional exponent.
-/
namespace CallLint

/-- the number `digits * 10 ^ exponent` -/
structure Decimal where
  digits : Nat
  exponent : Int
deriving DecidableEq, Repr, Inhabited

namespace Decimal

def isDigit (c : Char) : Bool :=
  '0' ≤ c && c ≤ '9'

/-- value of a digit sequence -/
def natOfDigits (cs : List Char) : Nat :=
  cs.foldl (fun n c => n * 10 + (c.toNat - '0'.toNat)) 0

/-- an exponent's sign and digits; nothing else may follow them -/
def readExponent? : List Char → Option Int
  | '-' :: cs => digits? cs |>.map fun n => -(n : Int)
  | '+' :: cs => digits? cs |>.map fun n => (n : Int)
  | cs => digits? cs |>.map fun n => (n : Int)
where
  digits? (cs : List Char) : Option Nat :=
    if !cs.isEmpty && cs.all isDigit then some (natOfDigits cs) else none

/-- the number that a text denotes: at least one digit, at most one point, then an exponent or nothing -/
def read? (cs : List Char) : Option Decimal :=
  let whole := cs.takeWhile isDigit
  let afterWhole := cs.dropWhile isDigit
  let (fraction, tail) :=
    match afterWhole with
    | '.' :: rest => (rest.takeWhile isDigit, rest.dropWhile isDigit)
    | rest => ([], rest)
  if whole.isEmpty && fraction.isEmpty then none
  else
    let scaled (exponent : Int) : Decimal := ⟨natOfDigits (whole ++ fraction), exponent - fraction.length⟩
    match tail with
    | [] => some (scaled 0)
    | 'e' :: rest => (readExponent? rest).map scaled
    | 'E' :: rest => (readExponent? rest).map scaled
    | _ => none

/-- how many digits the digit sequence has -/
def width (d : Decimal) : Nat :=
  (Nat.toDigits 10 d.digits).length

end Decimal

end CallLint
