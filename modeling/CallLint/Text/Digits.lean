/-
Numbers as digits. A digit sequence denotes a number in a radix of at most 16, whatever the case of its letters.
-/
namespace CallLint.Text

/-- value of a digit in a radix of at most 16 -/
def digitValue? (radix : Nat) (c : Char) : Option Nat :=
  let value : Option Nat :=
    if '0' ≤ c ∧ c ≤ '9' then some (c.toNat - '0'.toNat)
    else if 'a' ≤ c ∧ c ≤ 'f' then some (c.toNat - 'a'.toNat + 10)
    else if 'A' ≤ c ∧ c ≤ 'F' then some (c.toNat - 'A'.toNat + 10)
    else none
  value.filter (· < radix)

/-- value of digits after those whose value is `n` -/
def digitsValueFrom? (radix : Nat) : Nat → List Char → Option Nat
  | n, [] => some n
  | n, c :: cs => (digitValue? radix c).bind fun d => digitsValueFrom? radix (n * radix + d) cs

/-- value of a digit sequence; it must not be empty -/
def digitsValue? (radix : Nat) (cs : List Char) : Option Nat :=
  if cs.isEmpty then none else digitsValueFrom? radix 0 cs

/-- the number that a digit sequence denotes, when it fits 64 bits -/
def wordValue? (radix : Nat) (cs : List Char) : Option Nat :=
  (digitsValue? radix cs).filter (· < Nat.pow 2 64)

end CallLint.Text
