/-
Integer literals. Decimal literals denote their value, which must fit 64 bits with a sign. Hexadecimal, octal and binary
literals denote bit patterns: of 64 bits with the suffix of long literals, of 32 bits without it.
-/
import CallLint.Unit.Literal
import CallLint.Text.Digits

namespace CallLint

/-- the number whose two's complement pattern of `bits` bits is `n` -/
def signedPattern (bits n : Nat) : Int :=
  if n < Nat.pow 2 (bits - 1) then n else (n : Int) - (Nat.pow 2 bits : Nat)

/-- digits of an integer literal and their radix -/
def radixDigits : List Char → Nat × List Char
  | '0' :: 'x' :: cs => (16, cs)
  | '0' :: 'X' :: cs => (16, cs)
  | '0' :: 'b' :: cs => (2, cs)
  | '0' :: 'B' :: cs => (2, cs)
  | '0' :: c :: cs => (8, c :: cs)
  | cs => (10, cs)

/-- the text before the suffix of long literals, and whether it was there -/
def splitLongSuffix (cs : List Char) : List Char × Bool :=
  match cs.getLast? with
  | some 'l' => (cs.dropLast, true)
  | some 'L' => (cs.dropLast, true)
  | _ => (cs, false)

namespace Literal

/-- value of an integer literal; none when it is too large -/
def ofIntegerText? (text : String) : Option Literal :=
  let (body, isLong) := splitLongSuffix (text.toList.filter (· != '_'))
  let (radix, digits) := radixDigits body
  let bits := if radix = 10 then 63 else if isLong then 64 else 32
  ((Text.digitsValue? radix digits).filter (· < Nat.pow 2 bits)).map fun n =>
    .int (if radix = 10 then Int.ofNat n else signedPattern bits n)

end Literal

end CallLint
