/-
Method signatures and the call sites they match.

A signature names an owner type, a method (by its whole name or by how the name starts) and an argument count. A call
site says what is known of a call: its owner when the file determines it, the method name and the number of arguments.
An unknown owner matches every signature's owner. Owners compare up to the nested type separator: `Outer$Inner` and
`Outer.Inner` are one type.
-/
namespace CallLint

/-- constraint on the number of arguments -/
inductive Arity where
  | any
  | none
  | exactly (count : Nat)
deriving DecidableEq, Repr, Inhabited

/-- how a signature names its method -/
inductive MethodName where
  | exact (name : String)
  | startsWith (stem : String)
deriving DecidableEq, Repr, Inhabited

structure Signature where
  owner : String
  name : MethodName
  arity : Arity
deriving DecidableEq, Repr, Inhabited

/-- what a signature needs to know about an invocation -/
structure CallSite where
  owner : Option String
  name : String
  arguments : Nat
deriving DecidableEq, Repr, Inhabited

namespace Arity

def accepts : Arity → Nat → Bool
  | any, _ => true
  | none, count => count == 0
  | exactly n, count => count == n

end Arity

namespace MethodName

/-- the name or the stem itself -/
def text : MethodName → String
  | exact name => name
  | startsWith stem => stem

def isExact : MethodName → Bool
  | exact _ => true
  | startsWith _ => false

def covers : MethodName → String → Bool
  | exact name, called => called == name
  | startsWith stem, called => stem.toList.isPrefixOf called.toList

/-- written form; a star stands for the rest of the name -/
def render : MethodName → String
  | exact name => name
  | startsWith stem => stem ++ "*"

end MethodName

/-- separators between an outer type, a nested type and a package -/
def isTypeSeparator (c : Char) : Bool :=
  c == '.' || c == '$'

/-- equal letter by letter, where any two type separators count as equal -/
def sameTypeChars : List Char → List Char → Bool
  | [], [] => true
  | a :: as, b :: bs => (a == b || (isTypeSeparator a && isTypeSeparator b)) && sameTypeChars as bs
  | _, _ => false

/-- equal type names up to the nested type separator -/
def sameTypeName (a b : String) : Bool :=
  sameTypeChars a.toList b.toList

namespace Signature

/-- any number of arguments -/
def anyArgs (owner name : String) : Signature :=
  ⟨owner, .exact name, .any⟩

/-- no argument -/
def noArgs (owner name : String) : Signature :=
  ⟨owner, .exact name, .none⟩

/-- any method of `owner` whose name starts with `stem` -/
def starting (owner stem : String) : Signature :=
  ⟨owner, .startsWith stem, .any⟩

/-- the `Owner#member` form; the arity is not written -/
def render (s : Signature) : String :=
  s.owner ++ "#" ++ s.name.render

/-- an unknown owner matches any owner -/
def ownerFits (s : Signature) : Option String → Bool
  | none => true
  | some owner => sameTypeName owner s.owner

def covers (s : Signature) (site : CallSite) : Bool :=
  s.ownerFits site.owner && s.name.covers site.name && s.arity.accepts site.arguments

end Signature

end CallLint
