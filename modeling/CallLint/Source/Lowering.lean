/-
Lowering of bodies: the expressions of a syntax tree with their names, owners and targets resolved. Statements and other
constructs that only hold expressions are spliced into what is around them; types, annotations and modifiers leave
nothing.

A node that lies `nestingLimit` levels deep in a body is cut off: it leaves nothing, or an opaque expression without
children where an expression must stand. So `Inner`, which lowers what lies inside a node, is built level by level.

The constructs are written for all actions that know scopes, local types and visits of nodes (`Lowering`). Lowering itself
is the plain case, where the context says whether a node lies in a local type and a visit is nothing of its own.
-/
import CallLint.Source.Scope
import CallLint.Source.Literal.Float

namespace CallLint

/-- how many levels of a body are lowered -/
def nestingLimit : Nat := 256

namespace Lower

/-- runs an action in a scope of its own -/
def inScope {α : Type} (action : Lower α) : Lower α := do
  modify fun st => { st with scopes := [] :: st.scopes }
  let result ← action
  modify fun st => { st with scopes := st.scopes.drop 1 }
  return result

def declare (v : VariableDecl) : Lower Unit :=
  modify (·.declare v)

/-- declares all parameters of a list; each is located at the whole list -/
def declareParameters (c : LowerContext) (list : Node) : Lower Unit :=
  (c.source.parametersOf list).forM fun p =>
    declare ⟨p.name, .parameter, c.declarations.names.resolve? p.type, p.isFinal, none, c.spanOf list⟩

/-- a variable whose type is not stated -/
def declareUntyped (c : LowerContext) (name : Node) (location : Node) : Lower Unit :=
  declare ⟨c.textOf name, .local, none, false, none, c.spanOf location⟩

end Lower

/-- Actions of which lowering can be made. They lower as `Lower` does and may keep account of what they do. -/
class Lowering (M : Type → Type) where
  /-- an action on variables and scopes alone -/
  plain {α : Type} : Lower α → M α
  inScope {α : Type} : M α → M α
  /-- what lies in a type that is declared in a body -/
  inLocalType {α : Type} : LowerContext → (LowerContext → M α) → M α
  /-- what depends on whether it lies in such a type -/
  placed {α : Type} : LowerContext → (LowerContext → M α) → M α
  /-- what is done at a node, and what is left of the node when it is cut off -/
  visit {α : Type} : Node → α → M α → M α

open Lowering

instance : Lowering Lower where
  plain action := action
  inScope := Lower.inScope
  inLocalType c action := action { c with inLocalType := true }
  placed c action := action c
  visit _ _ action := action

section Plain

variable {α : Type} (c : LowerContext) (action : Lower α) (inside : LowerContext → Lower α)

@[simp] theorem Lower.plain_eq : plain action = action := rfl

@[simp] theorem Lower.inScope_eq : Lowering.inScope action = Lower.inScope action := rfl

@[simp] theorem Lower.inLocalType_eq : inLocalType c inside = inside { c with inLocalType := true } := rfl

@[simp] theorem Lower.placed_eq : placed c inside = inside c := rfl

end Plain

/-- how the nodes inside a node are lowered -/
structure Inner (M : Type → Type := Lower) where
  /-- the expressions that a node leaves where statements stand -/
  splice : LowerContext → Node → M (List Expr)
  expression : LowerContext → Node → M Expr

namespace Inner

variable {M : Type → Type} [Monad M] [Lowering M]

/-- all children of a node -/
def children (inner : Inner M) (c : LowerContext) (n : Node) : M (List Expr) :=
  return (← n.namedChildren.mapM (inner.splice c)).flatten

/-- the child that plays a role, if there is one -/
def child (inner : Inner M) (c : LowerContext) (n : Node) (r : Role) : M (List Expr) :=
  match n.child? r with
  | some part => inner.splice c part
  | none => return []

def opaqueNode (inner : Inner M) (c : LowerContext) (n : Node) : M Expr :=
  return .other n.kind.render (← inner.children c n)

/-- a literal with its value, or an opaque node when it has none -/
def literal (inner : Inner M) (c : LowerContext) (n : Node) (value : Option Literal) : M Expr :=
  match value with
  | some v => return .literal v
  | none => inner.opaqueNode c n

/-! ## Calls -/

def arguments (inner : Inner M) (c : LowerContext) (n : Node) : M (List Expr) :=
  match n.child? .arguments with
  | some list => list.namedChildren.mapM (inner.expression c)
  | none => return []

def methodInvocation (inner : Inner M) (c : LowerContext) (n : Node) : M (Call Expr) := do
  let nameNode := n.child? .name
  let name := (nameNode.map c.textOf).getD ""
  let arguments ← inner.arguments c n
  let st ← plain get
  let (owner, target) :=
    match n.child? .object with
    | none => c.unqualified name arguments.length
    | some object => c.qualified st object name arguments.length
  let receiver ←
    match n.child? .object with
    | none => pure none
    | some object => some <$> inner.expression c object
  return ⟨name, owner, receiver, arguments, [], target, c.spanOf (nameNode.getD n), c.spanOf n⟩

/-- the creation of an object, with the members of an anonymous class as its body -/
def objectCreation (inner : Inner M) (c : LowerContext) (n : Node) : M (Call Expr) := do
  let owner := c.declaredType? n
  let arguments ← inner.arguments c n
  let target := c.constructor? (owner.bind c.declarations.typeNamed?) arguments.length
  let body ←
    match n.childOfKind? .classBody with
    | some body => inScope (inner.children c body)
    | none => pure []
  return ⟨constructorName, owner, none, arguments, body, target, c.spanOf ((n.child? .type).getD n), c.spanOf n⟩

/-- another constructor called by a constructor -/
def constructorInvocation (inner : Inner M) (c : LowerContext) (n : Node) : M (Call Expr) := do
  let keyword := n.child? .constructor
  let arguments ← inner.arguments c n
  placed c fun c => do
    let (owner, id) := c.constructed (keyword.map (·.kind))
    return ⟨constructorName, owner, none, arguments, [], c.constructor? id arguments.length,
      c.spanOf (keyword.getD n), c.spanOf n⟩

/-! ## Other expressions -/

def fieldAccess (inner : Inner M) (c : LowerContext) (n : Node) : M Expr := do
  match n.child? .object, n.child? .field with
  | some object, some fieldNode =>
    let field := c.textOf fieldNode
    let binding := c.fieldBinding? (← plain get) object field
    return .fieldAccess (← inner.expression c object) field binding
  | _, _ => inner.opaqueNode c n

def binary (inner : Inner M) (c : LowerContext) (n : Node) : M Expr := do
  match n.child? .left, n.child? .operator, n.child? .right with
  | some left, some operator, some right =>
    let left ← inner.expression c left
    return .binary (c.textOf operator) left (← inner.expression c right)
  | _, _, _ => inner.opaqueNode c n

def lambda (inner : Inner M) (c : LowerContext) (n : Node) : M Expr :=
  inScope do
    match n.child? .parameters with
    | none => pure ()
    | some list =>
      match list.kind with
      | .identifier => plain (Lower.declareUntyped c list list)
      | .inferredParameters => plain (list.namedChildren.forM fun p => Lower.declareUntyped c p p)
      | _ => plain (Lower.declareParameters c list)
    return .other n.kind.render (← inner.child c n .body)

/-- an expression; `inner` lowers what lies inside it -/
def ofExpression (inner : Inner M) (c : LowerContext) (n : Node) : M Expr := do
  match n.kind with
  | .parenthesizedExpression =>
    match n.namedChildren with
    | first :: _ => inner.expression c first
    | [] => return .other n.kind.render []
  | .stringLiteral => inner.literal c n (← plain (liftM (Literal.ofStringText? (c.textOf n))))
  | .characterLiteral => inner.literal c n (Literal.ofCharacterText? (c.textOf n))
  | .decimalIntegerLiteral | .hexIntegerLiteral | .octalIntegerLiteral | .binaryIntegerLiteral =>
    inner.literal c n (Literal.ofIntegerText? (c.textOf n))
  | .decimalFloatingPointLiteral | .hexFloatingPointLiteral => return .literal (Literal.ofFloatText (c.textOf n))
  | .trueLiteral => return .literal (.bool true)
  | .falseLiteral => return .literal (.bool false)
  | .identifier => return .name (c.textOf n) (c.lookup? (← plain get) (c.textOf n))
  | .fieldAccess => inner.fieldAccess c n
  | .binaryExpression => inner.binary c n
  | .methodInvocation => return .call (← inner.methodInvocation c n)
  | .objectCreationExpression => return .call (← inner.objectCreation c n)
  | .lambdaExpression => inner.lambda c n
  | _ => inner.opaqueNode c n

/-! ## Statements -/

/-- Declares one variable after its initializer is lowered. A created object tells the type when `var` does not. -/
def declarator (inner : Inner M) (c : LowerContext) (isFinal : Bool) (type : Option String) (n : Node) :
    M (List Expr) := do
  match n.child? .name with
  | none => return []
  | some name =>
    let initializer ←
      match n.child? .value with
      | none => pure none
      | some value => some <$> inner.expression c value
    let created := ((initializer.bind Expr.call?).filter (·.isConstructor)).bind (·.owner)
    plain (Lower.declare ⟨c.textOf name, .local, type.or created, isFinal, initializer, c.spanOf n⟩)
    return initializer.toList

def localDeclaration (inner : Inner M) (c : LowerContext) (n : Node) : M (List Expr) := do
  let isFinal := (c.source.modifiersOf n).isFinal
  let type := c.declaredType? n
  return (← (n.childrenIn .declarator).mapM (inner.declarator c isFinal type)).flatten

def enhancedFor (inner : Inner M) (c : LowerContext) (n : Node) : M (List Expr) :=
  inScope do
    let value ← inner.child c n .value
    match n.child? .name with
    | some name => plain (Lower.declare ⟨c.textOf name, .local, c.declaredType? n, false, none, c.spanOf n⟩)
    | none => pure ()
    return value ++ (← inner.child c n .body)

/-- a resource is a variable that cannot be assigned, or any other expression -/
def resource (inner : Inner M) (c : LowerContext) (n : Node) : M (List Expr) := do
  match n.child? .name, n.child? .value with
  | some name, some value =>
    let initializer ← inner.expression c value
    plain (Lower.declare ⟨c.textOf name, .local, c.declaredType? n, true, some initializer, c.spanOf n⟩)
    return [initializer]
  | _, _ => inner.children c n

/-- a method of a local or anonymous type; it stays part of the body around it -/
def localMethod (inner : Inner M) (c : LowerContext) (n : Node) : M (List Expr) :=
  inScope do
    match n.child? .parameters with
    | some list => plain (Lower.declareParameters c list)
    | none => pure ()
    inner.child c n .body

def localType (inner : Inner M) (c : LowerContext) (n : Node) : M (List Expr) :=
  match n.child? .body with
  | some body => inLocalType c fun c => inScope (inner.children c body)
  | none => return []

/-- what a node leaves where statements stand; `inner` lowers what lies inside it -/
def ofStatement (inner : Inner M) (c : LowerContext) (n : Node) : M (List Expr) :=
  match n.kind with
  | .lineComment | .blockComment | .modifiers | .annotationMarker | .annotationWithArguments => return []
  | .block | .constructorBody | .classBody | .switchBlock | .forStatement | .catchClause
  | .tryWithResourcesStatement => inScope (inner.children c n)
  | .localVariableDeclaration | .fieldDeclaration => inner.localDeclaration c n
  | .enhancedForStatement => inner.enhancedFor c n
  | .catchFormalParameter =>
    match n.child? .name with
    | some name => do
      plain (Lower.declareUntyped c name n)
      return []
    | none => return []
  | .resource => inner.resource c n
  | .methodDeclaration | .constructorDeclaration => inner.localMethod c n
  | .explicitConstructorInvocation => do return [.call (← inner.constructorInvocation c n)]
  | kind =>
    if kind.isTypeDeclaration then inner.localType c n
    else if kind.isExpression then do return [← inner.expression c n]
    else inner.children c n

/-- lowering of so many levels -/
def ofLevels : Nat → Inner M
  | 0 => ⟨fun _ _ => return [], fun _ n => return .other n.kind.render []⟩
  | levels + 1 =>
    let inner := ofLevels levels
    ⟨fun c n => visit n [] (inner.ofStatement c n),
      fun c n => visit n (.other n.kind.render []) (inner.ofExpression c n)⟩

end Inner

end CallLint
