/-
What the parts of a body have to do with variables, read off the syntax tree: `Trace` follows lowering from level to level
and node to node and leaves an event for each name that is lowered, each variable and each scope, in the order of lowering.
No tables, states or expressions occur in it. `Body.events` are the events of a whole body.
-/
import CallLint.Proofs.Correspondence.Placed
import CallLint.Proofs.Scopes.Nesting

namespace CallLint

/-- what the nodes inside a node have to do with variables, as statements and as expressions -/
structure Trace where
  splice : Node → List Event
  expression : Node → List Event

/-- the events in a node, in a scope if the node opens one -/
def Node.scoped (n : Node) (es : List Event) : List Event :=
  if n.kind.opensScope then [.scope n es] else es

namespace Trace

variable (t : Trace) (s : Source)

def children (n : Node) : List Event :=
  n.namedChildren.flatMap t.splice

def child (n : Node) (r : Role) : List Event :=
  match n.child? r with
  | some part => t.splice part
  | none => []

/-! ## Variables -/

/-- the parameters in a list; they may be named from the start of what they are parameters of -/
def parameters (n list : Node) : List Event :=
  (s.parametersOf list).map fun p => .declare ⟨p.name, .parameter, list, n.start⟩

/-- the parameters of a routine -/
def parametersOf (n : Node) : List Event :=
  match n.child? .parameters with
  | some list => parameters s n list
  | none => []

/-- a parameter of a lambda without a type -/
def inferred (n p : Node) : Event :=
  .declare ⟨s.textOf p, .local, p, n.start⟩

/-! ## Expressions -/

def arguments (n : Node) : List Event :=
  match n.child? .arguments with
  | some list => list.namedChildren.flatMap t.expression
  | none => []

/-- the arguments come before the receiver -/
def methodInvocation (n : Node) : List Event :=
  t.arguments n ++
    match n.child? .object with
    | some object => t.expression object
    | none => []

def objectCreation (n : Node) : List Event :=
  t.arguments n ++
    match n.childOfKind? .classBody with
    | some body => [.scope body (t.children body)]
    | none => []

def fieldAccess (n : Node) : List Event :=
  match n.child? .object, n.child? .field with
  | some object, some _ => t.expression object
  | _, _ => t.children n

def binary (n : Node) : List Event :=
  match n.child? .left, n.child? .operator, n.child? .right with
  | some left, some _, some right => t.expression left ++ t.expression right
  | _, _, _ => t.children n

def lambdaParameters (n : Node) : List Event :=
  match n.child? .parameters with
  | none => []
  | some list =>
    match list.kind with
    | .identifier => [inferred s n list]
    | .inferredParameters => list.namedChildren.map (inferred s n)
    | _ => parameters s n list

/-- what is embedded in a literal that has no value -/
def literal (n : Node) (value : Option Literal) : List Event :=
  match value with
  | some _ => []
  | none => t.children n

def ofExpression (n : Node) : List Event :=
  match n.kind with
  | .parenthesizedExpression =>
    match n.namedChildren with
    | first :: _ => t.expression first
    | [] => []
  | .stringLiteral =>
    match Literal.ofStringText? (s.textOf n) with
    | .ok value => t.literal n value
    | .error _ => []
  | .characterLiteral => t.literal n (Literal.ofCharacterText? (s.textOf n))
  | .decimalIntegerLiteral | .hexIntegerLiteral | .octalIntegerLiteral | .binaryIntegerLiteral =>
    t.literal n (Literal.ofIntegerText? (s.textOf n))
  | .decimalFloatingPointLiteral | .hexFloatingPointLiteral | .trueLiteral | .falseLiteral => []
  | .identifier => [.use (s.textOf n) n]
  | .fieldAccess => t.fieldAccess n
  | .binaryExpression => t.binary n
  | .methodInvocation => t.methodInvocation n
  | .objectCreationExpression => t.objectCreation n
  | .lambdaExpression => [.scope n (lambdaParameters s n ++ t.child n .body)]
  | _ => t.children n

/-! ## Statements -/

/-- a variable is declared after its initializer -/
def declarator (n : Node) : List Event :=
  match n.child? .name with
  | none => []
  | some name =>
    (match n.child? .value with
      | some value => t.expression value
      | none => []) ++ [.declare ⟨s.textOf name, .local, n, n.stop⟩]

/-- what is looped over comes before the variable -/
def enhancedFor (n : Node) : List Event :=
  t.child n .value ++
    ((match n.child? .name with
      | some name =>
        [.declare ⟨s.textOf name, .local, n, ((n.child? .value).map (·.stop)).getD n.start⟩]
      | none => []) ++ t.child n .body)

def resource (n : Node) : List Event :=
  match n.child? .name, n.child? .value with
  | some name, some value => t.expression value ++ [.declare ⟨s.textOf name, .local, n, n.stop⟩]
  | _, _ => t.children n

def localType (n : Node) : List Event :=
  match n.child? .body with
  | some body => [.scope body (t.children body)]
  | none => []

def ofStatement (n : Node) : List Event :=
  match n.kind with
  | .lineComment | .blockComment | .modifiers | .annotationMarker | .annotationWithArguments => []
  | .block | .constructorBody | .classBody | .switchBlock | .forStatement | .catchClause
  | .tryWithResourcesStatement => [.scope n (t.children n)]
  | .localVariableDeclaration | .fieldDeclaration => (n.childrenIn .declarator).flatMap (t.declarator s)
  | .enhancedForStatement => [.scope n (t.enhancedFor s n)]
  | .catchFormalParameter =>
    match n.child? .name with
    | some name => [.declare ⟨s.textOf name, .local, n, n.stop⟩]
    | none => []
  | .resource => t.resource s n
  | .methodDeclaration | .constructorDeclaration => [.scope n (parametersOf s n ++ t.child n .body)]
  | .explicitConstructorInvocation => t.arguments n
  | kind =>
    if kind.isTypeDeclaration then t.localType n
    else if kind.isExpression then t.expression n
    else t.children n

/-- the events of so many levels -/
def ofLevels (s : Source) : Nat → Trace
  | 0 => ⟨fun _ => [], fun _ => []⟩
  | levels + 1 => ⟨(ofLevels s levels).ofStatement s, (ofLevels s levels).ofExpression s⟩

end Trace

/-! ## Bodies -/

namespace Body

/-- the events of a part of a body, in a scope if the part opens one -/
def partEvents (s : Source) (n : Node) : List Event :=
  n.scoped ((Trace.ofLevels s nestingLimit).children n)

/-- the code of a routine lies in a scope of its own in the scope of the parameters -/
def routineEvents (s : Source) (n : Node) : List Event :=
  n.scoped (Trace.parametersOf s n ++
    match n.child? .body with
    | some code => partEvents s code
    | none => [])

/-- what a body has to do with variables -/
def events (s : Source) : Body → List Event
  | .method _ n => routineEvents s n
  | .field _ _ value => (Trace.ofLevels s nestingLimit).expression value
  | .block _ n => (parts n).flatMap (partEvents s)

/-- the names that a body uses -/
def uses (s : Source) (b : Body) : List Use :=
  Event.usesIn [] (b.events s)

/-- the variables that a body declares, in order -/
def entries (s : Source) (b : Body) : List Entry :=
  Event.entriesIn [] (b.events s)

end Body

end CallLint
