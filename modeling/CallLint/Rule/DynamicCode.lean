/-
Reflective calls whose looked-up name is not fixed at compile time. The name is the first argument; a call without
arguments looks up everything and is always reported.
-/
import CallLint.Unit.Walk
import CallLint.Unit.Constant

namespace CallLint.DynamicCode

/-- calls that load classes or look up their members by name -/
def signatures : List Signature :=
  let type := "java.lang.Class"
  [.anyArgs type "forName", .anyArgs type "getMethod", .noArgs type "getMethods", .anyArgs type "getField",
    .noArgs type "getFields", .anyArgs type "getDeclaredField", .noArgs type "getDeclaredFields",
    .noArgs type "getDeclaredClasses", .anyArgs "java.lang.ClassLoader" "loadClass"]

def catalog : Catalog :=
  Catalog.ofList signatures

/-- whether the name that a call looks up is known at compile time -/
def hasConstantName (u : CompilationUnit) (c : Call Expr) : Bool :=
  match c.arguments with
  | [] => false
  | name :: _ => (u.constant? name).isSome

/-- locations of the calls to report, in document order -/
def violations (u : CompilationUnit) : List Span :=
  ((u.matching catalog).filter fun c => !hasConstantName u c).map (·.nameSpan)

end CallLint.DynamicCode
