/-
The search for `TestCase` among the superclasses of a type. It counts its steps and looks at one type more than a unit
has. `MissingAssertions.testCase_search` says that this is enough, for units whose superclasses form circles or lead
nowhere too, and that in the unit of a tree the search asks the types that `Declarations.hierarchy` lists.
-/
import CallLint.Proofs.Inheritance.Hierarchy
import CallLint.Proofs.Owners.Units
import CallLint.Rule.MissingAssertions

namespace CallLint

/-- the types that a type inherits, each of them once, from the type itself upwards -/
structure ListsHierarchy (types : Array TypeDecl) (id : TypeId) (ids : List TypeId) : Prop where
  first : ids.head? = some id
  linked : ids.IsChain (IsSuperclass types)
  once : ids.Nodup
  all : ∀ above, above ∈ ids ↔ Inherits types id above

/-- superclasses in sound declarations are types of the file -/
theorem Declarations.Sound.inherited {d : Declarations} (h : d.Sound) {id above : TypeId} (hid : id.index < d.types.size)
    (habove : Inherits d.types id above) : above.index < d.types.size := by
  induction habove with
  | self id => exact hid
  | @superclass id e above t ht he _ ih =>
    obtain ⟨-, t', ht', -⟩ := h.superclass id.index t ht e he
    exact ih (Array.getElem?_eq_some_iff.1 ht').1

theorem Declarations.Sound.listsHierarchy {d : Declarations} (h : d.Sound) {id : TypeId} (hid : id.index < d.types.size) :
    ListsHierarchy d.types id (d.hierarchy id) where
  first := hierarchy_head hid
  linked := hierarchyFrom_isChain
  once := hierarchy_nodup d id
  all := fun _ => mem_hierarchy_iff.trans ⟨And.left, fun habove => ⟨habove, h.inherited hid habove⟩⟩

namespace MissingAssertions

/-- whether the superclass of a type is called `TestCase` -/
def namesTestCase (d : Declarations) (id : TypeId) : Bool :=
  (d.typeAt? id).any (·.superclassSimpleName == some testCaseName)

variable {u : CompilationUnit} {d : Declarations} {id : TypeId}

theorem typeAt?_eq (h : d.types = u.types) (id : TypeId) : d.typeAt? id = u.typeAt? id :=
  congrArg (·[id.index]?) h

/-- the search asks the types on the walk over superclasses -/
theorem extendsTestCase_eq_any (h : d.types = u.types) (steps : Nat) (id : TypeId) :
    extendsTestCase u steps id = (d.follow (·.superclassId) steps id).any (namesTestCase d) := by
  induction steps generalizing id with
  | zero => rfl
  | succ steps ih =>
    have same := typeAt?_eq h id
    rw [extendsTestCase, Declarations.follow, same]
    cases ht : u.typeAt? id with
    | none => rfl
    | some t =>
      have here : namesTestCase d id = (t.superclassSimpleName == some testCaseName) := by
        rw [namesTestCase, same, ht, Option.any_some]
      dsimp only
      rw [← here]
      cases t.superclassId with
      | none => simp
      | some e => rw [List.any_cons, ← ih]

/-- with a step for each type, the search asks the types of the hierarchy -/
theorem extendsTestCase_eq_hierarchy (h : d.types = u.types) {steps : Nat} (hsteps : u.types.size ≤ steps) (id : TypeId) :
    extendsTestCase u steps id = (d.hierarchy id).any (namesTestCase d) := by
  have enough : d.types.size ≤ steps := h ▸ hsteps
  rw [extendsTestCase_eq_any h, Bool.eq_iff_iff, List.any_eq_true, List.any_eq_true]
  exact exists_congr fun _ => and_congr_left' (Declarations.mem_hierarchy_iff_mem_follow enough).symm

theorem any_hierarchy_iff (h : d.types = u.types) :
    (d.hierarchy id).any (namesTestCase d) = true ↔
      ∃ above t, Inherits u.types id above ∧ u.typeAt? above = some t ∧
        t.superclassSimpleName = some testCaseName := by
  rw [List.any_eq_true]
  constructor
  · rintro ⟨above, hmem, hnames⟩
    obtain ⟨t, ht, hname⟩ := (Option.any_eq_true _ _).1 hnames
    exact ⟨above, t, h ▸ (Declarations.mem_hierarchy_iff.1 hmem).1, (typeAt?_eq h above).symm.trans ht,
      beq_iff_eq.1 hname⟩
  · rintro ⟨above, t, hinherits, ht, hname⟩
    have found := (typeAt?_eq h above).trans ht
    refine ⟨above, Declarations.mem_hierarchy_iff.2 ⟨h ▸ hinherits, (Array.getElem?_eq_some_iff.1 found).1⟩, ?_⟩
    rw [namesTestCase, found, Option.any_some]
    exact beq_iff_eq.2 hname

/-- **The search for `TestCase` is complete**, whatever the superclasses of a unit are: it finds a type that extends
`TestCase` when there is one on the way, and more steps find nothing else. In the unit of any tree it asks the types of the
hierarchy, which lists what a type inherits. -/
theorem testCase_search :
    (∀ (u : CompilationUnit) (id : TypeId),
      (extendsTestCase u (u.types.size + 1) id = true ↔
        ∃ above t, Inherits u.types id above ∧ u.typeAt? above = some t ∧
          t.superclassSimpleName = some testCaseName) ∧
      ∀ more, extendsTestCase u (u.types.size + more) id = extendsTestCase u (u.types.size + 1) id) ∧
    ∀ (path : String) (s : Source) (root : Node),
      Safe (root.Faulty s)
        (fun u => (s.declarationsOf root).types = u.types ∧ ∀ id : TypeId, id.index < u.types.size →
          ListsHierarchy u.types id ((s.declarationsOf root).hierarchy id) ∧
            extendsTestCase u (u.types.size + 1) id =
              ((s.declarationsOf root).hierarchy id).any (namesTestCase (s.declarationsOf root)))
        (CompilationUnit.ofTree path s root) := by
  refine ⟨fun u id => ?_, fun path s root => ?_⟩
  · -- the declarations matter for their types alone
    have eq {steps : Nat} (hsteps : u.types.size ≤ steps) :=
      extendsTestCase_eq_hierarchy (d := { (default : Declarations) with types := u.types }) rfl hsteps id
    refine ⟨?_, fun more => (eq (Nat.le_add_right _ _)).trans (eq (Nat.le_succ _)).symm⟩
    rw [eq (Nat.le_succ _), any_hierarchy_iff rfl]
  · have sound := s.declarationsOf_sound root
    refine ((CompilationUnit.ofTree_faulty path s root).and (CompilationUnit.ofTree_tells s path root)).mono id ?_
    rintro u ⟨-, tells⟩
    have same : (s.declarationsOf root).types = u.types := tells.types.symm
    refine ⟨same, fun id hid => ⟨?_, extendsTestCase_eq_hierarchy same (Nat.le_succ _) id⟩⟩
    rw [← same] at hid ⊢
    exact sound.listsHierarchy hid

end MissingAssertions

end CallLint
