/-
Trees of YAML. A node may be named, and an alias stands for a node by its number; a number that is given twice means the
later node.
-/
import CallLint.Yaml.Scalar.Basic

namespace CallLint.Yaml

inductive Node where
  | scalar (value : Scalar) (tag : Option String)
  | sequence (items : List Node)
  | mapping (entries : List (Node × Node))
  | anchored (number : Nat) (node : Node)
  | alias (number : Nat)
deriving Inhabited

namespace Node

/-- what stands where nothing is written -/
def missing : Node := .scalar .missing none

mutual

/-- the named nodes of a tree with their numbers, outer ones first -/
def anchors : Node → List (Nat × Node)
  | .scalar _ _ => []
  | .sequence items => anchorsOfItems items
  | .mapping entries => anchorsOfEntries entries
  | .anchored number node => (number, node) :: node.anchors
  | .alias _ => []

def anchorsOfItems : List Node → List (Nat × Node)
  | [] => []
  | node :: items => node.anchors ++ anchorsOfItems items

def anchorsOfEntries : List (Node × Node) → List (Nat × Node)
  | [] => []
  | (key, value) :: entries => key.anchors ++ value.anchors ++ anchorsOfEntries entries

end

/-- a node without its name -/
def content : Node → Node
  | .anchored _ node => node
  | node => node

end Node

/-- a tree together with what its aliases stand for -/
structure Document where
  root : Node
  anchors : List (Nat × Node)

namespace Document

def ofRoot (root : Node) : Document :=
  ⟨root, root.anchors⟩

/-- a node, or the one it stands for -/
def resolve (d : Document) (node : Node) : Node :=
  match node.content with
  | .alias number => ((d.anchors.reverse.lookup number).map (·.content)).getD .missing
  | content => content

end Document

end CallLint.Yaml
