/-
What names mean at a place in a body: local variables by scope, then the fields of the type that the body belongs to and
of the types around it. The types of receivers follow from the same tables, as far as the file states them.
-/
import CallLint.Source.Declarations
import CallLint.Source.Literal.Quoted

namespace CallLint

/-- one scope: its variables by name, the last declaration first -/
abbrev Scope := List (String × VariableId)

/-- what changes while a body is lowered -/
structure LowerState where
  /-- fields, parameters and local variables -/
  variableDecls : Array VariableDecl
  /-- open scopes, innermost first -/
  scopes : List Scope
deriving Repr, Inhabited

/-- lowering may stop with a fault -/
abbrev Lower := StateT LowerState (Except Fault)

/-- what stays the same while a part of a body is lowered -/
structure LowerContext where
  source : Source
  declarations : Declarations
  /-- the type that the body belongs to; types declared in bodies do not count -/
  owner : TypeId
  /-- whether the part lies in a type that is declared in the body -/
  inLocalType : Bool

namespace LowerState

/-- makes a variable visible in the innermost scope -/
def bind (st : LowerState) (name : String) (id : VariableId) : LowerState :=
  match st.scopes with
  | [] => { st with scopes := [[(name, id)]] }
  | scope :: outer => { st with scopes := ((name, id) :: scope) :: outer }

/-- a new variable that is visible from here on -/
def declare (st : LowerState) (v : VariableDecl) : LowerState :=
  { st with variableDecls := st.variableDecls.push v }.bind v.name ⟨st.variableDecls.size⟩

/-- the variable of a name in the innermost scope that has one -/
def local? (st : LowerState) (name : String) : Option VariableId :=
  st.scopes.findSome? (·.lookup name)

/-- declared type of a variable -/
def typeOf? (st : LowerState) (id : VariableId) : Option String :=
  st.variableDecls[id.index]?.bind (·.declaredType)

end LowerState

/-- the expression inside all parentheses around it -/
def Node.unparenthesized : Node → Node
  | .mk kind role start stop children =>
    if kind == .parenthesizedExpression then (inside children).getD (.mk kind role start stop children)
    else .mk kind role start stop children
termination_by structural n => n
where
  inside : List Node → Option Node
    | [] => none
    | n :: ns => if n.kind.isNamed && !n.isComment then some n.unparenthesized else inside ns
  termination_by structural ns => ns

/-- dotted text of a name or of names joined by points -/
def Source.nameChain? (s : Source) : Node → Option String
  | .mk kind role start stop children =>
    match kind with
    | .identifier => some (s.slice start stop)
    | .fieldAccess =>
      match ofObject children, (Node.mk kind role start stop children).child? .field with
      | some object, some field => some (object ++ "." ++ s.textOf field)
      | _, _ => none
    | _ => none
termination_by structural n => n
where
  /-- the chain of the first child that is the object of a field access -/
  ofObject : List Node → Option String
    | [] => none
    | n :: ns => if n.role == some .object then s.nameChain? n else ofObject ns
  termination_by structural ns => ns

namespace LowerContext

def textOf (c : LowerContext) (n : Node) : String :=
  c.source.textOf n

def spanOf (c : LowerContext) (n : Node) : Span :=
  c.source.spanOf n

/-- type named by a node, as written -/
def resolve? (c : LowerContext) (n : Node) : Option String :=
  c.declarations.names.resolve? (c.textOf n)

/-- type that a declaration names -/
def declaredType? (c : LowerContext) (n : Node) : Option String :=
  (n.child? .type).bind c.resolve?

def ownerDecl? (c : LowerContext) : Option TypeDecl :=
  c.declarations.typeAt? c.owner

/-- the variable or field that a simple name means -/
def lookup? (c : LowerContext) (st : LowerState) (name : String) : Option VariableId :=
  (st.local? name).or
    ((c.declarations.enclosingChain c.owner).findSome? fun t => c.declarations.fieldIn? t name)

/-- dotted text of a chain of names that starts with no variable, and so means a type -/
def typeReference? (c : LowerContext) (st : LowerState) (n : Node) : Option String :=
  (c.source.nameChain? n).filter fun chain =>
    (c.lookup? st (String.ofList (chain.toList.takeWhile (· != '.')))).isNone

/-- the field in the file that a field access means -/
def fieldBinding? (c : LowerContext) (st : LowerState) (object : Node) (field : String) : Option VariableId :=
  let d := c.declarations
  match object.kind with
  | .thisExpr => d.fieldIn? c.owner field
  | .superExpr => (c.ownerDecl?.bind (·.superclassId)).bind (d.fieldIn? · field)
  | .identifier => ofType
  | .fieldAccess => ofType
  | _ => none
where
  ofType : Option VariableId :=
    (((c.typeReference? st object).bind c.declarations.names.resolve?).bind c.declarations.typeNamed?).bind
      (c.declarations.fieldIn? · field)

/-- type of a field access as a receiver: of its field, or the type that the whole chain names -/
def accessType? (c : LowerContext) (st : LowerState) (n : Node) : Option String :=
  match n.child? .object, n.child? .field with
  | some target, some fieldNode =>
    let field := c.textOf fieldNode
    match c.fieldBinding? st target field with
    | some id => st.typeOf? id
    | none =>
      if TypeName.startsUppercase field.toList then (c.typeReference? st n).bind c.declarations.names.resolve? else none
  | _, _ => none

/-- type of a receiver, when the file states it -/
def receiverType? (c : LowerContext) (st : LowerState) (object : Node) : Option String :=
  let n := object.unparenthesized
  match n.kind with
  | .thisExpr => c.ownerDecl?.map (·.binaryName)
  | .superExpr => c.ownerDecl?.bind (·.superclass)
  | .identifier =>
    match c.lookup? st (c.textOf n) with
    | some id => st.typeOf? id
    | none => c.resolve? n
  | .fieldAccess => c.accessType? st n
  | .objectCreationExpression => c.declaredType? n
  | .castExpression => c.declaredType? n
  | .stringLiteral => some "java.lang.String"
  | .classLiteral => some "java.lang.Class"
  | _ => none

/-- owner and target of a call without a receiver: a method of the types around it, or a statically imported one -/
def unqualified (c : LowerContext) (name : String) (arguments : Nat) : Option String × Option MethodId :=
  let d := c.declarations
  match (d.enclosingChain c.owner).findSome? fun t => d.methodIn? t name arguments with
  | some (t, m) => ((d.typeAt? t).map (·.binaryName), some m)
  | none => (d.names.staticOwner? name, none)

/-- owner and target of a call on a receiver -/
def qualified (c : LowerContext) (st : LowerState) (object : Node) (name : String) (arguments : Nat) :
    Option String × Option MethodId :=
  let d := c.declarations
  let owner := c.receiverType? st object
  (owner, ((owner.bind d.typeNamed?).bind fun t => d.methodIn? t name arguments).map (·.2))

/-- a constructor that a type itself declares -/
def constructor? (c : LowerContext) (id : Option TypeId) (arguments : Nat) : Option MethodId :=
  id.bind fun t => c.declarations.ownMethod? t constructorName arguments

/-- The type that an explicit constructor call constructs, by name and in the file. In a local type it is unknown. -/
def constructed (c : LowerContext) (keyword : Option NodeKind) : Option String × Option TypeId :=
  match c.ownerDecl?, c.inLocalType with
  | some decl, false =>
    match keyword with
    | some .thisExpr => (some decl.binaryName, some c.owner)
    | some .superExpr =>
      match decl.superclass with
      | some superclass => (c.declarations.names.resolve? superclass, decl.superclassId)
      | none => (if decl.kind = .classType then some "java.lang.Object" else none, decl.superclassId)
    | _ => (none, none)
  | _, _ => (none, none)

end LowerContext

end CallLint
