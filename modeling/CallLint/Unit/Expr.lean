/-
Expressions of a compilation unit: literals, names, field accesses, binary operations, calls, and any other construct
as an opaque node with its children in source order. Names, fields and calls carry the declaration they refer to, when
it is in the same unit.
-/
import CallLint.Unit.Span
import CallLint.Unit.Literal
import CallLint.Signature.Basic

namespace CallLint

/-- index of a type declared in a unit -/
structure TypeId where
  index : Nat
deriving DecidableEq, Repr, Inhabited, Hashable

/-- index of a method declared in a unit -/
structure MethodId where
  index : Nat
deriving DecidableEq, Repr, Inhabited, Hashable

/-- index of a variable (field, local or parameter) of a unit -/
structure VariableId where
  index : Nat
deriving DecidableEq, Repr, Inhabited, Hashable

/-- a method or constructor invocation over expressions of type `ε` -/
structure Call (ε : Type) where
  /-- the invoked name; constructors go by `constructorName` -/
  name : String
  /-- binary name of the owning type, when it is known -/
  owner : Option String
  receiver : Option ε
  arguments : List ε
  /-- body of an anonymous class that the call creates -/
  anonymousBody : List ε
  /-- the invoked method, when it is declared in the same unit -/
  target : Option MethodId
  /-- location of the name or of the created type -/
  nameSpan : Span
  span : Span
deriving Repr, Inhabited

inductive Expr where
  | literal (value : Literal)
  | name (name : String) (binding : Option VariableId)
  | fieldAccess (target : Expr) (field : String) (binding : Option VariableId)
  | binary (operator : String) (left right : Expr)
  | call (call : Call Expr)
  | other (kind : String) (children : List Expr)
deriving Repr, Inhabited

/-- name under which constructors are declared and called -/
def constructorName : String := "<init>"

namespace Call

def isConstructor {ε : Type} (c : Call ε) : Bool :=
  c.name == constructorName

/-- what signatures see of a call -/
def site {ε : Type} (c : Call ε) : CallSite :=
  ⟨c.owner, c.name, c.arguments.length⟩

end Call

def Expr.call? : Expr → Option (Call Expr)
  | .call c => some c
  | _ => none

end CallLint
