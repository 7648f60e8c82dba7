/-
The call sites of a syntax tree, and where they stand. `Node.callSites` are all method invocations, object creations and
explicit constructor calls of a tree, outer ones first. `Node.sites` lists the same nodes (`sites_nodes`) with the
position of each: whether it lies in the code of a member of a declared type, and how deep.

A position says what a unit keeps of a site. Sites in statements and expressions are kept down to the nesting limit.
Sites outside the code of members (in annotations, in the headers of declarations, in statements between the types of a
file) are no code of the unit. Four positions in code are lost:
- the qualifier of an object creation, `q()` in `q().new T()`;
- the qualifier of an explicit constructor call, `q()` in `q().super()`;
- the parameters of a lambda, or of a method, constructor or record that is declared in a body;
- the expressions embedded in a string that has a value without them.
-/
import CallLint.Source.Analysis
import CallLint.Proofs.Grammar.Form

namespace CallLint

/-! ## Call sites -/

def NodeKind.isCallSite : NodeKind → Bool
  | .methodInvocation | .objectCreationExpression | .explicitConstructorInvocation => true
  | _ => false

mutual

/-- all call sites in a node, outer ones first -/
def Node.callSites : Node → List Node
  | .mk kind role start stop children =>
    if kind.isCallSite then .mk kind role start stop children :: callSitesIn children else callSitesIn children
termination_by structural n => n

def callSitesIn : List Node → List Node
  | [] => []
  | n :: ns => n.callSites ++ callSitesIn ns
termination_by structural ns => ns

end

/-! ## Positions -/

/-- where a node stands; depths count the levels of a body, as lowering does -/
inductive Position where
  /-- in no code of a member -/
  | outside
  /-- in code that lowering forgets -/
  | lost
  /-- the whole file -/
  | file
  /-- a declared type -/
  | type
  /-- the body of a declared type, or a part of it -/
  | members
  /-- a declaration of fields -/
  | fields
  /-- a method or constructor of a declared type -/
  | routine
  /-- an enum constant of a declared type -/
  | constant
  /-- the declarator of a variable whose initializer stands so deep -/
  | declarator (depth : Nat)
  /-- a list of expressions that stand so deep -/
  | arguments (depth : Nat)
  /-- a list of statements that stand so deep -/
  | group (depth : Nat)
  | statement (depth : Nat)
  | expression (depth : Nat)
deriving DecidableEq, Repr

namespace Position

/-- the position of a node of a kind where a node may stand: an expression may stand as a statement -/
def enter (kind : NodeKind) : Position → Position
  | .statement depth =>
    if kind.isNote then .outside else if kind.isExpression then .expression (depth + 1) else .statement depth
  | .lost => if kind.isNote then .outside else .lost
  | p => p

/-- positions of the members of a declared type -/
def ofMember (kind : NodeKind) : Position :=
  if kind.isTypeDeclaration then .type
  else
    match kind with
    | .enumBodyDeclarations => .members
    | .fieldDeclaration | .constantDeclaration => .fields
    | .methodDeclaration | .constructorDeclaration | .compactConstructorDeclaration => .routine
    | .enumConstant => .constant
    | .staticInitializer | .block => .group 0
    | _ => .outside

/-- positions of the children of a statement that stands at a depth, or of anything else that is spliced there -/
def inStatement (depth : Nat) (parent child : Node) : Position :=
  if parent.kind.isTypeDeclaration then
    if child.role = some .body then .group (depth + 1)
    else if child.role = some .parameters then .lost
    else .statement (depth + 1)
  else
    match parent.kind with
    | .localVariableDeclaration | .fieldDeclaration =>
      if child.role = some .declarator then .declarator (depth + 1) else .statement (depth + 1)
    | .methodDeclaration | .constructorDeclaration =>
      if child.role = some .parameters then .lost else .statement (depth + 1)
    | .resource => if child.role = some .value then .expression (depth + 1) else .statement (depth + 1)
    | .explicitConstructorInvocation =>
      if child.role = some .arguments then .arguments (depth + 1)
      else if child.role = some .object then .lost
      else .statement (depth + 1)
    | _ => .statement (depth + 1)

/-- whether a string has a value, whatever is embedded in it -/
def isValued (s : Source) (n : Node) : Bool :=
  match Literal.ofStringText? (s.textOf n) with
  | .ok (some _) => true
  | _ => false

/-- positions of the children of an expression that stands at a depth -/
def inExpression (s : Source) (depth : Nat) (parent child : Node) : Position :=
  match parent.kind with
  | .methodInvocation =>
    if child.role = some .arguments then .arguments (depth + 1)
    else if child.role = some .object then .expression (depth + 1)
    else .statement (depth + 1)
  | .objectCreationExpression =>
    if child.role = some .arguments then .arguments (depth + 1)
    else if child.slot = .members then .group (depth + 1)
    else if child.slot = .plain then .lost
    else .statement (depth + 1)
  | .fieldAccess => if child.role = some .object then .expression (depth + 1) else .statement (depth + 1)
  | .binaryExpression =>
    if child.role = some .left ∨ child.role = some .right then .expression (depth + 1) else .statement (depth + 1)
  | .parenthesizedExpression => .expression (depth + 1)
  | .lambdaExpression => if child.role = some .parameters then .lost else .statement (depth + 1)
  | .stringLiteral => if isValued s parent then .lost else .statement (depth + 1)
  | _ => .statement (depth + 1)

/-- the position of a child, by the position of its parent -/
def child (s : Source) (parent child : Node) : Position → Position
  | .outside => .outside
  | .lost => .lost
  | .file => if child.kind.isTypeDeclaration then .type else .outside
  | .type => if child.role = some .body then .members else .outside
  | .members => ofMember child.kind
  | .fields => if child.role = some .declarator then .declarator 0 else .outside
  | .routine => if child.role = some .body then .group 0 else .outside
  | .constant => if child.role = some .arguments ∨ child.role = some .body then .group 0 else .outside
  | .declarator depth => if child.role = some .value then .expression depth else .statement depth
  | .arguments depth => .expression depth
  | .group depth => .statement depth
  | .statement depth => inStatement depth parent child
  | .expression depth => inExpression s depth parent child

end Position

/-- a call site with its position -/
structure Site where
  node : Node
  position : Position
deriving Repr

mutual

/-- all call sites in a node that stands at a position, outer ones first -/
def Node.sites (s : Source) (p : Position) : Node → List Site
  | .mk kind role start stop children =>
    let inner := sitesIn s (.mk kind role start stop children) (p.enter kind) children
    if kind.isCallSite then ⟨.mk kind role start stop children, p.enter kind⟩ :: inner else inner
termination_by structural n => n

/-- the call sites in some children of a node at a position -/
def sitesIn (s : Source) (parent : Node) (p : Position) : List Node → List Site
  | [] => []
  | c :: cs => c.sites s (p.child s parent c) ++ sitesIn s parent p cs
termination_by structural cs => cs

end

namespace Site

/-- Whether a unit keeps the site. An explicit constructor call is a statement, all other sites are expressions. -/
def isKept (site : Site) : Bool :=
  match site.position with
  | .statement depth => depth < nestingLimit
  | .expression depth => site.node.kind.isExpression && depth < nestingLimit
  | _ => false

end Site

/-- the call sites of a file; none when it has syntax errors -/
def Source.sites (s : Source) : List Site :=
  match s.tree? with
  | none => []
  | some root => root.sites s .file

/-! ## What is written at a site -/

/-- the part of a call site that names what is called -/
def Node.callee (n : Node) : Node :=
  (n.child? (match n.kind with
    | .methodInvocation => .name
    | .objectCreationExpression => .type
    | _ => .constructor)).getD n

/-- the invoked name, its location and that of the whole call -/
structure Written where
  name : String
  nameSpan : Span
  span : Span
deriving DecidableEq, Repr

def Node.written (s : Source) (n : Node) : Written :=
  ⟨if n.kind = .methodInvocation then ((n.child? .name).map s.textOf).getD "" else constructorName,
    s.spanOf n.callee, s.spanOf n⟩

def Call.written {ε : Type} (c : Call ε) : Written :=
  ⟨c.name, c.nameSpan, c.span⟩

/-! ## All sites are listed -/

theorem sitesIn_eq (s : Source) (parent : Node) (p : Position) (cs : List Node) :
    sitesIn s parent p cs = cs.flatMap fun c => c.sites s (p.child s parent c) := by
  induction cs with
  | nil => rfl
  | cons c cs ih => rw [sitesIn, ih, List.flatMap_cons]

mutual

/-- each call site of a node is listed once, whatever its position -/
theorem Node.sites_nodes (s : Source) : ∀ (n : Node) (p : Position), (n.sites s p).map Site.node = n.callSites
  | .mk kind role start stop children, p => by
    rw [Node.sites, Node.callSites]
    split_ifs
    · rw [List.map_cons, sitesIn_nodes s children]
    · exact sitesIn_nodes s children _ _
termination_by structural n => n

theorem sitesIn_nodes (s : Source) :
    ∀ (cs : List Node) (parent : Node) (p : Position), (sitesIn s parent p cs).map Site.node = callSitesIn cs
  | [], _, _ => rfl
  | c :: cs, parent, p => by
    rw [sitesIn, callSitesIn, List.map_append, Node.sites_nodes s c, sitesIn_nodes s cs]
termination_by structural cs => cs

end

end CallLint
