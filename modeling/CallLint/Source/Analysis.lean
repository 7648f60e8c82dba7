/-
From a file to its compilation unit. The package and the imports are read first, then all declarations, and then the
bodies are lowered one by one in the order in which they were collected.

The grammar gives no tree to a file with syntax errors. Such a file is lowered all the same: from the tree that is
recovered of it (`Recovery`).
-/
import CallLint.Source.Lowering
import CallLint.Source.Parser

namespace CallLint

/-! ## Package and imports -/

/-- the first node that is wanted, in source order, outer nodes first -/
def Node.find? (wanted : Node → Bool) : Node → Option Node
  | .mk kind role start stop children =>
    if wanted (.mk kind role start stop children) then some (.mk kind role start stop children) else inside children
termination_by structural n => n
where
  inside : List Node → Option Node
    | [] => none
    | n :: ns => (n.find? wanted).or (inside ns)
  termination_by structural ns => ns

def Node.isDottedName (n : Node) : Bool :=
  n.kind == .scopedIdentifier || n.kind == .identifier

def Node.namesPackage (n : Node) : Bool :=
  n.kind == .packageDeclaration && n.children.any (·.isDottedName)

namespace Source

def package? (s : Source) (root : Node) : Option String :=
  ((root.find? Node.namesPackage).bind fun n => n.children.find? (·.isDottedName)).map s.textOf

/-- the import that a node declares; of several names the last one counts -/
def importOf? (s : Source) (n : Node) : Option Import :=
  if n.kind == .importDeclaration then
    (n.children.filter (·.isDottedName)).getLast?.map fun name =>
      ⟨s.textOf name, (n.childOfKind? .staticKeyword).isSome, (n.childOfKind? .asterisk).isSome, s.spanOf n⟩
  else none

def imports (s : Source) (root : Node) : List Import :=
  root.children.filterMap s.importOf?

end Source

/-! ## Bodies -/

namespace Body

section Code

variable {M : Type → Type} [Monad M] [Lowering M]

open Lowering

/-- the code of a method or constructor, with its parameters -/
def routine (inner : Inner M) (c : LowerContext) (n : Node) : M (List Expr) :=
  inScope do
    match n.child? .parameters with
    | some list => plain (Lower.declareParameters c list)
    | none => pure ()
    match n.child? .body with
    | some code => inner.children c code
    | none => return []

/-- the parts of an initializer block or enum constant -/
def parts (n : Node) : List Node :=
  if n.kind == .enumConstant then [n.child? .arguments, n.child? .body].filterMap id else [n]

/-- the code of a body; `inner` lowers what lies inside it -/
def code (inner : Inner M) (s : Source) (d : Declarations) (u : CompilationUnit) : Body → M (List Expr)
  | .method id n =>
    match u.methodAt? id with
    | none => return []
    | some m => routine inner ⟨s, d, m.owner, false⟩ n
  | .field _ owner value => do
    return [← inner.expression ⟨s, d, owner, false⟩ value]
  | .block owner n => do
    return (← inScope ((parts n).mapM (inner.children ⟨s, d, owner, false⟩))).flatten

end Code

/-- the code of a body, and the state after it -/
def lower (s : Source) (d : Declarations) (u : CompilationUnit) (b : Body) : Except Fault (List Expr × LowerState) :=
  let inner : Inner := .ofLevels nestingLimit
  b.code inner s d u ⟨u.variableDecls, []⟩

/-- puts the code of a body where it belongs, with the variables declared on the way -/
def put (s : Source) (u : CompilationUnit) (code : List Expr) (vars : Array VariableDecl) : Body → CompilationUnit
  | .method id _ =>
    { u with variableDecls := vars, methods := u.methods.modify id.index fun m => { m with body := some code } }
  | .field id _ _ =>
    { u with variableDecls := vars.modify id.index fun v => { v with initializer := code.head? } }
  | .block owner n => { u with variableDecls := vars, blocks := u.blocks ++ [⟨owner, code, s.spanOf n⟩] }

end Body

namespace CompilationUnit

/-- lowers a body and puts it where it belongs -/
def lowerBody (s : Source) (d : Declarations) (u : CompilationUnit) (b : Body) : Except Fault CompilationUnit := do
  let (code, st) ← b.lower s d u
  return b.put s u code st.variableDecls

/-- the unit of a syntax tree -/
def ofTree (path : String) (s : Source) (root : Node) : Except Fault CompilationUnit :=
  let package := s.package? root
  let imports := s.imports root
  let d := Declarations.ofFile s (NameTable.ofImports package imports) root
  d.bodies.foldlM (lowerBody s d) ⟨path, package, imports, d.types, d.methods, d.fields, [], false⟩

end CompilationUnit

/-! ## Files -/

/-- How a tree is recovered of a file with syntax errors. Any tree may come of it. -/
class Recovery where
  tree : Source → Node

/-- nothing is recovered, unless it is said how -/
instance (priority := low) : Recovery where
  tree s := .mk .program none 0 s.bytes.size []

namespace Source

variable [Recovery]

/-- the tree of a file, recovered when the file has syntax errors -/
def root (s : Source) : Node :=
  s.tree?.getD (Recovery.tree s)

/-- The unit of a file. With syntax errors it is that of the recovered tree, and says so. -/
def unit (s : Source) (path : String) : Except Fault CompilationUnit :=
  match s.tree? with
  | some root => CompilationUnit.ofTree path s root
  | none => (CompilationUnit.ofTree path s (Recovery.tree s)).map fun u => { u with hasParseErrors := true }

end Source

end CallLint
