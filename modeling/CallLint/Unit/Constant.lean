/-
Compile-time constants. A literal is its own value; a name or field bound to a `final` variable has the value of the
variable's initializer; `+` concatenates two values one of which is a string. Nothing else has a value, and no value is
found behind more than `referenceLimit` nested variable references.
-/
import CallLint.Unit.Basic

namespace CallLint

/-- how many nested variable references are followed -/
def referenceLimit : Nat := 10

/-- value of an expression when `value` gives the values of variables -/
def Expr.constantWith (value : VariableId → Option Literal) : Expr → Option Literal
  | .literal v => some v
  | .name _ binding => binding.bind value
  | .fieldAccess _ _ binding => binding.bind value
  | .binary operator left right =>
    if operator = "+" then
      match left.constantWith value with
      | none => none
      | some a =>
        match right.constantWith value with
        | none => none
        | some b => a.concat b
    else none
  | .call _ => none
  | .other _ _ => none

namespace CompilationUnit

/-- value of a variable behind at most `depth` nested references, its own included -/
def variableValue (u : CompilationUnit) : Nat → VariableId → Option Literal
  | 0, _ => none
  | depth + 1, id =>
    match u.variableAt? id with
    | none => none
    | some v =>
      if v.isFinal then
        match v.initializer with
        | none => none
        | some init => init.constantWith (u.variableValue depth)
      else none

/-- value of an expression that is fixed at compile time -/
def constant? (u : CompilationUnit) (e : Expr) : Option Literal :=
  e.constantWith (u.variableValue referenceLimit)

end CompilationUnit

end CallLint
