/-
Units of files. The unit of a file is that of a tree: of the file's own tree, or of the one that is recovered when the file
has syntax errors. What holds of the units of all trees holds of the units of all files (`Source.unit_of_root`), and what
holds of the units of files' own trees holds of those that are not flagged (`Source.unit_of_tree`). Lowering stops at no
other strings than those of the tree, whatever the tree is (`CompilationUnit.ofTree_faulty`).
-/
import CallLint.Proofs.CallSites.Units
import CallLint.Proofs.Laws.Units

namespace CallLint

/-! ## Faults -/

section Faults

variable {s : Source} {root : Node}

/-- all strings of the node that have no text are strings of the tree -/
def Node.FaultsLieIn (s : Source) (n root : Node) : Prop :=
  n.Faulty s → root.Faulty s

theorem Node.FaultsLieIn.child {n m : Node} (h : n.FaultsLieIn s root) (hm : m ∈ n.children) : m.FaultsLieIn s root :=
  fun hf => h (.inside hm hf)

/-- bodies hold no other strings than the tree -/
theorem Declarations.ofFile_bodies (s : Source) (names : NameTable) (root : Node) :
    ∀ b ∈ (ofFile s names root).bodies, b.node.FaultsLieIn s root := by
  let P (d : Declarations) : Prop := ∀ b ∈ d.bodies, b.node.FaultsLieIn s root
  have steps : KeptBySteps s (fun n => n.FaultsLieIn s root) P :=
    { child := Node.FaultsLieIn.child
      body := fun {d b} h hb _ b' hb' => by
        rcases Array.mem_push.1 hb' with hb' | rfl
        · exact h b' hb'
        · exact hb.node Node.FaultsLieIn.child
      field := fun h _ _ _ _ _ => h
      method := fun h _ _ => h
      type := fun h _ _ _ _ => h }
  have children : ∀ n ∈ root.children, n.FaultsLieIn s root := fun n hn hf => .inside hn hf
  exact steps.collected children (by simp [P, ofNames])

/-- **Lowering stops at strings of the tree**, and nowhere else. -/
def faultLaw (s : Source) (root : Node) : LoweringLaw where
  State _ := True
  Place c n := c.source = s ∧ n.FaultsLieIn s root
  Typed _ := True
  Leaves _ _ _ := True
  Gives _ _ _ := True
  limit := nestingLimit
  Stops := root.Faulty s
  inside h hm := ⟨h.1, h.2.child hm⟩
  localType h := h
  type _ _ _ := trivial
  parameter _ _ _ _ _ := trivial
  faulty h hk hf := by
    obtain ⟨rfl, inside⟩ := h
    exact inside (.here hk hf)
  creates _ _ _ _ := trivial
  opened _ _ := trivial
  closed _ _ _ := trivial
  declared _ _ _ := trivial
  initialized _ _ _ := trivial
  leaves_mono _ _ _ := trivial
  gives_mono _ _ _ := trivial
  leaves_of_gives _ := trivial
  cutOff _ := trivial
  literal _ := trivial
  name _ _ _ _ := trivial
  fieldAccess _ _ _ _ _ _ := trivial
  binary _ _ _ := trivial
  other _ _ := trivial
  invoked _ _ _ _ _ _ _ := trivial
  created _ _ _ _ := trivial
  delegated _ _ _ := trivial

theorem CompilationUnit.ofTree_faulty (path : String) (s : Source) (root : Node) :
    Safe (root.Faulty s) (fun _ => True) (ofTree path s root) := by
  have bodies := Declarations.ofFile_bodies s (NameTable.ofImports (s.package? root) (s.imports root)) root
  exact (ofTree_lawful (L := faultLaw s root) le_rfl trivial (fun b hb _ => ⟨rfl, bodies b hb⟩) path).mono id fun _ _ =>
    trivial

end Faults

/-! ## Files -/

namespace Source

variable [Recovery] (s : Source) (path : String) {P : CompilationUnit → Prop}

theorem root_of_tree {s : Source} {root : Node} (h : s.tree? = some root) : s.root = root := by
  rw [Source.root, h, Option.getD_some]

theorem root_of_none {s : Source} (h : s.tree? = none) : s.root = Recovery.tree s := by
  rw [Source.root, h, Option.getD_none]

theorem unit_faulty : Safe (s.root.Faulty s) (fun _ => True) (s.unit path) := by
  have tree := CompilationUnit.ofTree_faulty path s s.root
  unfold unit
  cases hroot : s.tree? with
  | some root => rwa [root_of_tree hroot] at tree ⊢
  | none =>
    rw [root_of_none hroot] at tree ⊢
    exact tree.bind fun _ h => h

/-- what the flag does not touch and what holds of the unit of the file's tree holds of the file's unit -/
theorem unit_of_root (tree : Safe True P (CompilationUnit.ofTree path s s.root))
    (flag : ∀ u, P u → P { u with hasParseErrors := true }) : Safe (s.root.Faulty s) P (s.unit path) := by
  have all : Safe True P (s.unit path) := by
    unfold unit
    cases hroot : s.tree? with
    | some root => rwa [root_of_tree hroot] at tree
    | none =>
      rw [root_of_none hroot] at tree
      exact tree.bind flag
  exact ((s.unit_faulty path).and all).mono id fun _ h => h.2

/-- what holds of the units of files without syntax errors holds of all units that are not flagged -/
theorem unit_of_tree (tree : ∀ root, s.tree? = some root → Safe True P (CompilationUnit.ofTree path s root)) :
    Safe (s.root.Faulty s) (fun u => u.hasParseErrors = false → P u) (s.unit path) := by
  have all : Safe True (fun u => u.hasParseErrors = false → P u) (s.unit path) := by
    unfold unit
    cases hroot : s.tree? with
    | some root => exact (tree root hroot).mono id fun _ h _ => h
    | none =>
      have recovered := CompilationUnit.ofTree_faulty path s (Recovery.tree s)
      exact (recovered.mono (fun _ => trivial) fun _ => id).bind fun _ _ => nofun
  exact ((s.unit_faulty path).and all).mono id fun _ h => h.2

/-- the flag says that the grammar gives no tree to the file -/
theorem unit_hasParseErrors : Safe True (fun u => u.hasParseErrors = s.tree?.isNone) (s.unit path) := by
  have tree (root : Node) : Safe True (fun u => u.hasParseErrors = false) (CompilationUnit.ofTree path s root) := by
    unfold CompilationUnit.ofTree
    dsimp only
    rw [← Array.foldlM_toList]
    exact (CompilationUnit.lowerBodies_sameHead s _ _ _).mono id fun _ h => h.hasParseErrors
  unfold unit
  cases s.tree? with
  | some root => exact tree root
  | none => exact (tree _).bind fun _ _ => rfl

/-- a unit goes by the path that it was read under -/
theorem unit_path : Safe True (fun u => u.path = path) (s.unit path) := by
  have tree : Safe True (fun u => u.path = path) (CompilationUnit.ofTree path s s.root) := by
    unfold CompilationUnit.ofTree
    dsimp only
    rw [← Array.foldlM_toList]
    exact (CompilationUnit.lowerBodies_sameHead s _ _ _).mono id fun _ h => h.path
  exact (s.unit_of_root path tree fun _ => id).mono (fun _ => trivial) fun _ => id

end Source

end CallLint
