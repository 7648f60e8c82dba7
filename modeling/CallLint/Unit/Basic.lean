/-
Compilation units: what the rules know about one source file. Ids are indices into the unit's lists.

`roots` lists every body of code in document order: method bodies, field initializers and initializer blocks. Bodies
that start at the same byte keep the order methods, fields, blocks.
-/
import CallLint.Unit.Expr
import CallLint.Text.Split

namespace CallLint

structure Import where
  /-- the imported path, without `static` and `.*` -/
  path : String
  isStatic : Bool
  onDemand : Bool
  span : Span
deriving DecidableEq, Repr, Inhabited

inductive TypeKind where
  | classType
  | interface
  | enum
  | record
  | annotationType
deriving DecidableEq, Repr, Inhabited

structure TypeDecl where
  name : String
  /-- full name, nested types joined by `$` -/
  binaryName : String
  kind : TypeKind
  enclosing : Option TypeId
  /-- the superclass as resolved, or as written when it is not -/
  superclass : Option String
  /-- the superclass, when it is declared in the same unit -/
  superclassId : Option TypeId
  span : Span
deriving DecidableEq, Repr, Inhabited

structure Annotation where
  /-- the name as written, without the at sign -/
  name : String
  /-- names of the given elements; a lone unnamed argument is `value` -/
  elements : List String
deriving DecidableEq, Repr, Inhabited

structure MethodDecl where
  name : String
  owner : TypeId
  parameterCount : Nat
  varargs : Bool
  isPublic : Bool
  isAbstract : Bool
  annotations : List Annotation
  /-- absent for abstract and interface methods -/
  body : Option (List Expr)
  nameSpan : Span
  span : Span
deriving Repr, Inhabited

inductive VariableKind where
  | field
  | local
  | parameter
deriving DecidableEq, Repr, Inhabited

structure VariableDecl where
  name : String
  kind : VariableKind
  /-- binary name of the declared type, when it is known -/
  declaredType : Option String
  isFinal : Bool
  initializer : Option Expr
  span : Span
deriving Repr, Inhabited

/-- an initializer block or the arguments and body of an enum constant -/
structure InitializerBlock where
  owner : TypeId
  body : List Expr
  span : Span
deriving Repr, Inhabited

structure CompilationUnit where
  path : String
  package : Option String
  imports : List Import
  types : Array TypeDecl
  methods : Array MethodDecl
  variableDecls : Array VariableDecl
  blocks : List InitializerBlock
  hasParseErrors : Bool
deriving Repr, Inhabited

/-- what follows the last separator; the whole text when there is none -/
def lastSegment (isSeparator : Char → Bool) (name : String) : String :=
  String.ofList (name.toList.reverse.takeWhile (fun c => !isSeparator c)).reverse

namespace TypeKind

def render : TypeKind → String
  | .classType => "class"
  | .interface => "interface"
  | .enum => "enum"
  | .record => "record"
  | .annotationType => "annotation"

end TypeKind

/-- name of the superclass without package and nesting -/
def TypeDecl.superclassSimpleName (t : TypeDecl) : Option String :=
  t.superclass.map (lastSegment isTypeSeparator)

namespace Annotation

def simpleName (a : Annotation) : String :=
  lastSegment (· == '.') a.name

def hasElement (a : Annotation) (element : String) : Bool :=
  a.elements.contains element

end Annotation

namespace MethodDecl

def isConstructor (m : MethodDecl) : Bool :=
  m.name == constructorName

/-- whether a call with `count` arguments can bind to this method -/
def acceptsArity (m : MethodDecl) (count : Nat) : Bool :=
  if m.varargs then m.parameterCount ≤ count + 1 else count == m.parameterCount

def annotationNamed? (m : MethodDecl) (simpleName : String) : Option Annotation :=
  m.annotations.find? (·.simpleName == simpleName)

end MethodDecl

def VariableKind.render : VariableKind → String
  | .field => "field"
  | .local => "local"
  | .parameter => "parameter"

namespace CompilationUnit

/-- the unit of a file without declarations -/
def empty (path : String) : CompilationUnit :=
  ⟨path, none, [], #[], #[], #[], [], false⟩

def typeAt? (u : CompilationUnit) (id : TypeId) : Option TypeDecl :=
  u.types[id.index]?

def methodAt? (u : CompilationUnit) (id : MethodId) : Option MethodDecl :=
  u.methods[id.index]?

def variableAt? (u : CompilationUnit) (id : VariableId) : Option VariableDecl :=
  u.variableDecls[id.index]?

/-- body of a method; none also when there is no such method -/
def body? (u : CompilationUnit) (id : MethodId) : Option (List Expr) :=
  (u.methodAt? id).bind (·.body)

def methodIds (u : CompilationUnit) : List MethodId :=
  (List.range u.methods.size).map MethodId.mk

/-- method bodies with the byte at which their method starts -/
def methodRoots (u : CompilationUnit) : List (Nat × List Expr) :=
  u.methods.toList.filterMap fun m => m.body.map fun body => (m.span.startByte, body)

/-- field initializers with the byte at which their declarator starts -/
def fieldRoots (u : CompilationUnit) : List (Nat × List Expr) :=
  (u.variableDecls.toList.filter (·.kind == .field)).filterMap fun v =>
    v.initializer.map fun init => (v.span.startByte, [init])

/-- initializer blocks with the byte at which they start -/
def blockRoots (u : CompilationUnit) : List (Nat × List Expr) :=
  u.blocks.map fun b => (b.span.startByte, b.body)

/-- every body of code, in document order -/
def roots (u : CompilationUnit) : List (List Expr) :=
  ((u.methodRoots ++ u.fieldRoots ++ u.blockRoots).mergeSort fun a b => a.1 ≤ b.1).map (·.2)

end CompilationUnit

end CallLint
