/-
The declarations of a file: its named types with their fields and methods, as far as they are known without looking
into bodies, and the bodies that are still to be lowered. All declarations are collected before the first body is
lowered, so a use may come before its declaration.

Only types declared at the top of a file or as members of such types are collected; those inside bodies are not.
-/
import CallLint.Source.Node
import CallLint.Source.Basic
import CallLint.Source.TypeName

namespace CallLint

namespace Source

def textOf (s : Source) (n : Node) : String :=
  s.slice n.start n.stop

def spanOf (s : Source) (n : Node) : Span :=
  s.span n.start n.stop

end Source

/-! ## Modifiers and parameters -/

structure Modifiers where
  isFinal : Bool
  isPublic : Bool
  isAbstract : Bool
  annotations : List Annotation
deriving Repr, Inhabited

/-- name of the element that an argument of an annotation gives -/
def Source.elementName (s : Source) (argument : Node) : Option String :=
  if argument.kind == .elementValuePair then (argument.child? .key).map s.textOf else some "value"

/-- the annotation that a node writes; none for other modifiers -/
def Source.annotationOf? (s : Source) (n : Node) : Option Annotation :=
  if n.kind == .annotationMarker || n.kind == .annotationWithArguments then
    (n.child? .name).map fun name =>
      ⟨s.textOf name, ((n.child? .arguments).map fun args => args.namedChildren.filterMap s.elementName).getD []⟩
  else none

/-- the modifiers of a declaration -/
def Source.modifiersOf (s : Source) (n : Node) : Modifiers :=
  match n.childOfKind? .modifiers with
  | none => ⟨false, false, false, []⟩
  | some list =>
    let has (k : NodeKind) : Bool := (list.childOfKind? k).isSome
    ⟨has .finalKeyword, has .publicKeyword, has .abstractKeyword, list.children.filterMap s.annotationOf?⟩

/-- a parameter as written -/
structure Parameter where
  name : String
  /-- the type as written -/
  type : String
  isFinal : Bool
  /-- takes any number of arguments -/
  isSpread : Bool
deriving Repr, Inhabited

/-- the parameter that a node declares; none for receivers -/
def Source.parameterOf? (s : Source) (n : Node) : Option Parameter :=
  let isFinal := (s.modifiersOf n).isFinal
  if n.kind == .formalParameter then
    (n.child? .name).map fun name => ⟨s.textOf name, ((n.child? .type).map s.textOf).getD "", isFinal, false⟩
  else if n.kind == .spreadParameter then
    let type := n.namedChildren.find? fun c => c.kind != .modifiers && c.kind != .variableDeclarator
    ((n.childOfKind? .variableDeclarator).bind (·.child? .name)).map fun name =>
      ⟨s.textOf name, (type.map s.textOf).getD "", isFinal, true⟩
  else none

def Source.parametersOf (s : Source) (n : Node) : List Parameter :=
  n.namedChildren.filterMap s.parameterOf?

/-! ## Collected declarations -/

/-- a body that is lowered once all declarations are known -/
inductive Body where
  | method (id : MethodId) (node : Node)
  | field (id : VariableId) (owner : TypeId) (value : Node)
  | block (owner : TypeId) (node : Node)
deriving Repr, Inhabited

/-- what a type declares -/
structure Members where
  /-- fields by name, the last declaration first -/
  fields : List (String × VariableId)
  /-- methods in source order -/
  methods : List MethodId
deriving Repr, Inhabited

structure Declarations where
  names : NameTable
  types : Array TypeDecl
  /-- what each of the types declares -/
  members : Array Members
  /-- methods, still without bodies -/
  methods : Array MethodDecl
  /-- fields, still without types and initializers -/
  fields : Array VariableDecl
  /-- the fields' types as written -/
  fieldTypes : Array String
  /-- in source order -/
  bodies : Array Body
deriving Repr, Inhabited

namespace Declarations

def ofNames (names : NameTable) : Declarations :=
  ⟨names, #[], #[], #[], #[], #[], #[]⟩

def typeAt? (d : Declarations) (id : TypeId) : Option TypeDecl :=
  d.types[id.index]?

def membersOf (d : Declarations) (id : TypeId) : Members :=
  d.members[id.index]?.getD ⟨[], []⟩

/-- whether members of a type are public and its fields final without saying so -/
def isInterface (d : Declarations) (id : TypeId) : Bool :=
  match d.typeAt? id with
  | some t => t.kind == .interface || t.kind == .annotationType
  | none => false

def addBody (d : Declarations) (b : Body) : Declarations :=
  { d with bodies := d.bodies.push b }

/-- one more field of a type -/
def addField (d : Declarations) (owner : TypeId) (name type : String) (isFinal : Bool) (span : Span) : Declarations :=
  let id : VariableId := ⟨d.fields.size⟩
  { d with
    fields := d.fields.push ⟨name, .field, none, isFinal, none, span⟩
    fieldTypes := d.fieldTypes.push type
    members := d.members.modify owner.index fun m => { m with fields := (name, id) :: m.fields } }

/-! ## Members -/

/-- the fields that one declaration declares, and their initializers -/
def addFields (s : Source) (owner : TypeId) (n : Node) (d : Declarations) : Declarations :=
  let isFinal := d.isInterface owner || (s.modifiersOf n).isFinal
  let type := ((n.child? .type).map s.textOf).getD ""
  (n.childrenIn .declarator).foldl (fun d declarator =>
    match declarator.child? .name with
    | none => d
    | some name =>
      let id : VariableId := ⟨d.fields.size⟩
      let d := d.addField owner (s.textOf name) type isFinal (s.spanOf declarator)
      match declarator.child? .value with
      | none => d
      | some value => d.addBody (.field id owner value)) d

/-- a method or constructor; compact constructors take any arguments -/
def addMethod (s : Source) (owner : TypeId) (n : Node) (d : Declarations) : Declarations :=
  let modifiers := s.modifiersOf n
  let name? := n.child? .name
  let name? : Option String :=
    if n.kind == .methodDeclaration then name?.map s.textOf else some constructorName
  match name? with
  | none => d
  | some name =>
    let (count, varargs) :=
      match n.child? .parameters with
      | some params =>
        let ps := s.parametersOf params
        (ps.length, ps.any (·.isSpread))
      | none => (0, n.kind == .compactConstructorDeclaration)
    let hasBody := (n.child? .body).isSome
    let id : MethodId := ⟨d.methods.size⟩
    let method : MethodDecl :=
      { name := name
        owner := owner
        parameterCount := count
        varargs := varargs
        isPublic := modifiers.isPublic || d.isInterface owner
        isAbstract := modifiers.isAbstract || (d.isInterface owner && !hasBody)
        annotations := modifiers.annotations
        body := none
        nameSpan := s.spanOf ((n.child? .name).getD n)
        span := s.spanOf n }
    let d := { d with
      methods := d.methods.push method
      members := d.members.modify owner.index fun m => { m with methods := m.methods ++ [id] } }
    if hasBody then d.addBody (.method id n) else d

/-- a member that is no type -/
def addMember (s : Source) (owner : TypeId) (n : Node) (d : Declarations) : Declarations :=
  match n.kind with
  | .fieldDeclaration => d.addFields s owner n
  | .constantDeclaration => d.addFields s owner n
  | .methodDeclaration => d.addMethod s owner n
  | .constructorDeclaration => d.addMethod s owner n
  | .compactConstructorDeclaration => d.addMethod s owner n
  | .staticInitializer => d.addBody (.block owner n)
  | .block => d.addBody (.block owner n)
  | .enumConstant =>
    if (n.child? .arguments).isSome || (n.child? .body).isSome then d.addBody (.block owner n) else d
  | _ => d

/-! ## Types -/

def typeKindOf (n : Node) : TypeKind :=
  match n.kind with
  | .interfaceDeclaration => .interface
  | .enumDeclaration => .enum
  | .recordDeclaration => .record
  | .annotationTypeDeclaration => .annotationType
  | _ => .classType

/-- the superclass as written: what follows `extends`, be it a comment -/
def superclassText? (s : Source) (n : Node) : Option String :=
  ((n.child? .superclass).bind fun c => c.children.find? (·.kind.isNamed)).map s.textOf

/-- the components of a record as fields -/
def addComponents (s : Source) (id : TypeId) (n : Node) (d : Declarations) : Declarations :=
  match n.child? .parameters with
  | some params =>
    (s.parametersOf params).foldl (fun d p => d.addField id p.name p.type true (s.spanOf params)) d
  | none => d

/-- a type without the members of its body; none when the node has no name -/
def addType? (s : Source) (enclosing : Option TypeId) (n : Node) (d : Declarations) : Option (TypeId × Declarations) :=
  (n.child? .name).map fun nameNode =>
    let name := s.textOf nameNode
    let outer := (enclosing.bind d.typeAt?).map (·.binaryName)
    let binaryName := d.names.declaredName outer name
    let kind := typeKindOf n
    let id : TypeId := ⟨d.types.size⟩
    let d := { d with
      names := d.names.declare name binaryName
      types := d.types.push ⟨name, binaryName, kind, enclosing, superclassText? s n, none, s.spanOf n⟩
      members := d.members.push ⟨[], []⟩ }
    (id, if kind = .record then d.addComponents s id n else d)

mutual

/-- Collects what a node declares as a member of `owner`, or at the top of the file when there is no owner. -/
def collect (s : Source) (owner : Option TypeId) : Node → Declarations → Declarations
  | .mk kind role start stop children, d =>
    let n : Node := .mk kind role start stop children
    if kind.isTypeDeclaration then
      match d.addType? s owner n with
      | none => d
      | some (id, d) => collectBody s id children d
    else
      match owner with
      | none => d
      | some id =>
        if kind == .enumBodyDeclarations then collectAll s (some id) children d else d.addMember s id n
termination_by structural n => n

/-- collects the members of the body among a type's children -/
def collectBody (s : Source) (owner : TypeId) : List Node → Declarations → Declarations
  | [], d => d
  | .mk _ role _ _ children :: rest, d =>
    if role == some .body then collectAll s (some owner) children d else collectBody s owner rest d
termination_by structural ns => ns

def collectAll (s : Source) (owner : Option TypeId) : List Node → Declarations → Declarations
  | [], d => d
  | n :: ns, d => collectAll s owner ns (collect s owner n d)
termination_by structural ns => ns

end

/-! ## Links between types -/

/-- the first type with a binary name -/
def typeNamed? (d : Declarations) (binaryName : String) : Option TypeId :=
  (d.types.findIdx? (·.binaryName == binaryName)).map TypeId.mk

/-- a type with its superclass resolved -/
def linkType (d : Declarations) (index : Nat) (t : TypeDecl) : TypeDecl :=
  match t.superclass with
  | none => t
  | some written =>
    let resolved := d.names.resolveOrErase written
    { t with
      superclass := some resolved
      superclassId := (d.typeNamed? resolved).filter (·.index != index) }

/-- all types with their superclasses, and all fields with their types -/
def link (d : Declarations) : Declarations :=
  { d with
    types := d.types.mapIdx d.linkType
    fields := d.fields.mapIdx fun i v => { v with declaredType := d.fieldTypes[i]?.bind d.names.resolve? } }

/-- all declarations of a file -/
def ofFile (s : Source) (names : NameTable) (root : Node) : Declarations :=
  (collectAll s none root.children (ofNames names)).link

/-! ## Lookup -/

/-- a type and those that follow it, at most so many -/
def follow (d : Declarations) (next : TypeDecl → Option TypeId) : Nat → TypeId → List TypeId
  | 0, _ => []
  | steps + 1, id =>
    match d.typeAt? id with
    | none => []
    | some t =>
      match next t with
      | none => [id]
      | some other => id :: d.follow next steps other

/-- a type and the types around it, innermost first -/
def enclosingChain (d : Declarations) (id : TypeId) : List TypeId :=
  d.follow (·.enclosing) d.types.size id

/-- the same over superclasses, up to the first type that was seen before -/
def hierarchyFrom (d : Declarations) : Nat → List TypeId → TypeId → List TypeId
  | 0, _, _ => []
  | steps + 1, seen, id =>
    if seen.contains id then []
    else
      match d.typeAt? id with
      | none => []
      | some t =>
        match t.superclassId with
        | none => [id]
        | some superclass => id :: d.hierarchyFrom steps (id :: seen) superclass

/-- a type and its superclasses in the file -/
def hierarchy (d : Declarations) (id : TypeId) : List TypeId :=
  d.hierarchyFrom d.types.size [] id

/-- a field of a type or of its nearest superclass that declares it -/
def fieldIn? (d : Declarations) (id : TypeId) (name : String) : Option VariableId :=
  (d.hierarchy id).findSome? fun t => (d.membersOf t).fields.lookup name

/-- a method that a type itself declares -/
def ownMethod? (d : Declarations) (id : TypeId) (name : String) (arguments : Nat) : Option MethodId :=
  (d.membersOf id).methods.find? fun m =>
    match d.methods[m.index]? with
    | some method => method.name == name && method.acceptsArity arguments
    | none => false

/-- a method of a type or of its superclasses, with the type that declares it -/
def methodIn? (d : Declarations) (id : TypeId) (name : String) (arguments : Nat) : Option (TypeId × MethodId) :=
  (d.hierarchy id).findSome? fun t => (d.ownMethod? t name arguments).map fun m => (t, m)

end Declarations

end CallLint
