/-
Scalar literal values. `null` is absent: it is not a compile-time constant.
-/
namespace CallLint

inductive Literal where
  | str (value : String)
  | char (value : Char)
  | int (value : Int)
  /-- a floating point value, held as its text in a string concatenation -/
  | float (text : String)
  | bool (value : Bool)
deriving DecidableEq, Repr, Inhabited

namespace Literal

def isString : Literal → Bool
  | str _ => true
  | _ => false

/-- the text of a value in a string concatenation -/
def render : Literal → String
  | str value => value
  | char value => String.singleton value
  | int value => toString value
  | float text => text
  | bool true => "true"
  | bool false => "false"

/-- value of `+`: a concatenation, when one operand is a string -/
def concat (a b : Literal) : Option Literal :=
  if a.isString || b.isString then some (.str (a.render ++ b.render)) else none

end Literal

end CallLint
