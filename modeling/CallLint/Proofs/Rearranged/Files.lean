/-
Files whose declarations are in another order. The members of types, and the types of a file, may change places
(`Node.Rearranged`, `Node.FileRearranged`); the outline of the file is the same then. So when no name is declared twice,
forward references mean what backward references mean: the units match, and the findings are the same
(`CompilationUnit.ofTree_rearranged`).
-/
import CallLint.Proofs.Correspondence.Rules
import CallLint.Proofs.Rearranged.Collected
import CallLint.Proofs.Rearranged.Linked

namespace CallLint

/-! ## Rearranged trees -/

mutual

/-- a declaration and the same with the members of types in another order; members may be rearranged themselves -/
inductive Node.Rearranged : Node → Node → Prop where
  | same (n : Node) : Rearranged n n
  | type {kind : NodeKind} (role : Option Role) (start stop : Nat) {children children' : List Node} :
    kind.isTypeDeclaration = true → BodyRearranged children children' →
    Rearranged (.mk kind role start stop children) (.mk kind role start stop children')
  | enumMembers (role : Option Role) (start stop : Nat) {members between members' : List Node} :
    members.Perm between → List.Forall₂ Rearranged between members' →
    Rearranged (.mk .enumBodyDeclarations role start stop members) (.mk .enumBodyDeclarations role start stop members')

/-- the children of a type with the members in its body in another order -/
inductive Node.BodyRearranged : List Node → List Node → Prop where
  | here (kind : NodeKind) (start stop : Nat) {members between members' : List Node} (rest : List Node) :
    members.Perm between → List.Forall₂ Rearranged between members' →
    BodyRearranged (.mk kind (some .body) start stop members :: rest) (.mk kind (some .body) start stop members' :: rest)
  | there {n : Node} {ns ns' : List Node} : n.role ≠ some .body → BodyRearranged ns ns' →
    BodyRearranged (n :: ns) (n :: ns')

end

/-- a file with its types, and the members of these, in another order; all else at the top keeps its order -/
structure Node.FileRearranged (root root' : Node) : Prop where
  children : PermRel Node.Rearranged root.children root'.children
  others : root'.children.filter (!·.kind.isTypeDeclaration) = root.children.filter (!·.kind.isTypeDeclaration)

namespace Node

/-- what a type has besides its body stays as it is -/
theorem BodyRearranged.find? {ns ns' : List Node} (h : BodyRearranged ns ns') {r : Role} (hr : r ≠ .body) :
    ns'.find? (·.role == some r) = ns.find? (·.role == some r) := by
  induction ns' generalizing ns with
  | nil => cases h
  | cons n ns' ih =>
    cases h with
    | here _ _ _ rest _ _ =>
      have other : (some Role.body == some r) = false := by simpa using hr.symm
      rw [List.find?_cons, List.find?_cons, Node.role, Node.role, other]
    | there _ h => rw [List.find?_cons, List.find?_cons, ih h]

end Node

/-! ## Outlines -/

namespace Source

variable (s : Source) (names : NameTable)

theorem outlineOfAll_eq_sum (outer : Option TypeDecl) (ns : List Node) :
    s.outlineOfAll names outer ns = (ns.map (s.outlineOf names outer)).sum := by
  induction ns with
  | nil => rfl
  | cons n ns ih => rw [outlineOfAll, ih, List.map_cons, List.sum_cons]

/-- the order of the members does not matter -/
theorem outlineOfAll_perm (outer : Option TypeDecl) {ns ns' : List Node} (h : ns.Perm ns') :
    s.outlineOfAll names outer ns = s.outlineOfAll names outer ns' := by
  rw [outlineOfAll_eq_sum, outlineOfAll_eq_sum, (h.map _).sum_eq]

section Header

variable (outer : Option TypeDecl) (kind : NodeKind) (role : Option Role) (start stop : Nat) {children children' : List Node}
  (h : Node.BodyRearranged children children')
include h

theorem typeHeader_rearranged (name : Node) :
    s.typeHeader names outer (.mk kind role start stop children) name =
      s.typeHeader names outer (.mk kind role start stop children') name := by
  have superclass : Node.child? (.mk kind role start stop children') .superclass =
      Node.child? (.mk kind role start stop children) .superclass := h.find? (by decide)
  rw [typeHeader, typeHeader, Declarations.superclassText?, Declarations.superclassText?, superclass]
  rfl

theorem headerOutline_rearranged (t : TypeDecl) :
    s.headerOutline t outer (.mk kind role start stop children) =
      s.headerOutline t outer (.mk kind role start stop children') := by
  have parameters : Node.child? (.mk kind role start stop children') .parameters =
      Node.child? (.mk kind role start stop children) .parameters := h.find? (by decide)
  rw [headerOutline, headerOutline, componentsOutline, componentsOutline, parameters]

end Header

mutual

/-- **A rearranged declaration has the same outline.** -/
theorem outlineOf_rearranged : ∀ (n' : Node) {n : Node} (outer : Option TypeDecl), n.Rearranged n' →
    s.outlineOf names outer n = s.outlineOf names outer n'
  | .mk kind role start stop children', n, outer, h => by
    cases h with
    | same => rfl
    | @type _ role start stop children _ hk hb =>
      have name : Node.child? (.mk kind role start stop children') .name = Node.child? (.mk kind role start stop children) .name :=
        hb.find? (by decide)
      rw [outlineOf.eq_def, outlineOf.eq_def]
      dsimp only
      rw [if_pos hk, if_pos hk, name]
      cases Node.child? (.mk kind role start stop children) .name with
      | none => rfl
      | some name =>
        dsimp only
        rw [s.typeHeader_rearranged names outer kind role start stop hb name,
          s.headerOutline_rearranged outer kind role start stop hb, bodyOutline_rearranged children' _ hb]
    | @enumMembers role start stop members between _ hp hf =>
      simp only [outlineOf]
      rw [if_neg (by decide), if_neg (by decide)]
      cases outer with
      | none => rfl
      | some t =>
        simp only [beq_self_eq_true, if_true]
        rw [s.outlineOfAll_perm names (some t) hp, outlineOfAll_rearranged children' (some t) hf]
termination_by structural n' => n'

theorem bodyOutline_rearranged : ∀ (ns' : List Node) {ns : List Node} (t : TypeDecl), Node.BodyRearranged ns ns' →
    s.bodyOutline names t ns = s.bodyOutline names t ns'
  | [], _, _, h => by cases h
  | .mk kind role start stop members' :: rest, ns, t, h => by
    cases h with
    | @here _ _ _ members between _ _ hp hf =>
      rw [bodyOutline, bodyOutline, if_pos (by decide), if_pos (by decide), s.outlineOfAll_perm names (some t) hp,
        outlineOfAll_rearranged members' (some t) hf]
    | there hr h =>
      have other : ¬(role == some .body) = true := by simpa [Node.role] using hr
      rw [bodyOutline, bodyOutline, if_neg other, if_neg other, bodyOutline_rearranged rest t h]
termination_by structural ns' => ns'

theorem outlineOfAll_rearranged : ∀ (ns' : List Node) {ns : List Node} (outer : Option TypeDecl),
    List.Forall₂ Node.Rearranged ns ns' → s.outlineOfAll names outer ns = s.outlineOfAll names outer ns'
  | [], _, _, h => by
    cases h
    rfl
  | n' :: ns', _, outer, h => by
    cases h with
    | cons hn hns =>
      rw [outlineOfAll, outlineOfAll, outlineOf_rearranged n' outer hn, outlineOfAll_rearranged ns' outer hns]
termination_by structural ns' => ns'

end

end Source

/-! ## Rearranged files -/

namespace Node.FileRearranged

variable {s : Source} {root root' : Node}

theorem imports (h : root.FileRearranged root') : s.imports root' = s.imports root := by
  -- no type is an import, so imports are read off what is left of the children without the types
  have others (ns : List Node) : ns.filterMap s.importOf? = (ns.filter (!·.kind.isTypeDeclaration)).filterMap s.importOf? := by
    rw [List.filterMap_filter]
    refine List.filterMap_congr fun n _ => ?_
    split_ifs with htype
    · rfl
    · rw [Source.importOf?, if_neg fun hk => ?_]
      rw [beq_iff_eq.1 hk] at htype
      exact htype rfl
  rw [Source.imports, Source.imports, others, h.others, ← others]

theorem outline (h : root.FileRearranged root') (names : NameTable) :
    s.outlineOfAll names none root.children = s.outlineOfAll names none root'.children := by
  obtain ⟨between, hp, hf⟩ := h.children
  rw [s.outlineOfAll_perm names none hp, s.outlineOfAll_rearranged names root'.children none hf]

end Node.FileRearranged

namespace Declarations

/-- the declarations of a rearranged file are the same but for their order -/
theorem rearranged_sameItems {s : Source} {root root' : Node} (h : root.FileRearranged root') {names : NameTable}
    (hn : names.declared = []) (hd : (ofFile s names root).Distinct) :
    ∃ fs gs, SameItems (collectAll s none root.children (ofNames names)) (collectAll s none root'.children (ofNames names))
      fs gs := by
  have collected (ns : List Node) := collectAll_adds s names ns (ofNames names) none none rfl .none
  obtain ⟨fs, hc, ho⟩ := (collected root.children).outline [] (ofNames_coherent hn)
  obtain ⟨gs, hc', ho'⟩ := (collected root'.children).outline [] (ofNames_coherent hn)
  refine ⟨fs, gs, (hd.of_link.told hc).sameItems hc' ?_ ?_⟩
  · rw [ho, h.outline]
    exact ho'.symm
  · rw [(collected root'.children).names, (collected root.children).names]

end Declarations

/-- more can be said of the results when the first is known to be safe -/
theorem BothFaultOr.mono_safe {α β : Type} {P P' : α → β → Prop} {Q : α → Prop} {bad : Prop} {x : Except Fault α}
    {x' : Except Fault β} (h : BothFaultOr P x x') (hs : Safe bad Q x) (hp : ∀ a b, Q a → P a b → P' a b) :
    BothFaultOr P' x x' := by
  cases x <;> cases x' <;> first | exact h | exact hp _ _ hs h

namespace CompilationUnit

/-- the units say the same, and so do their findings; only the order of declarations and tests may differ -/
structure SaysSame (u u' : CompilationUnit) : Prop where
  units : ∃ R : Correspondence, R.spans = (· = ·) ∧ u.Matches R u'
  dynamicCode : Rule.dynamicCode.check u = Rule.dynamicCode.check u'
  missingAssertions : ∀ assertions depth,
    ((Rule.missingAssertions assertions depth).check u).Perm ((Rule.missingAssertions assertions depth).check u')

theorem Matches.saysSame {R : Correspondence} {u u' : CompilationUnit} (h : u.Matches R u') (hs : R.spans = (· = ·))
    (hd : (u.unsortedRoots.map (·.1)).Nodup) : u.SaysSame u' where
  units := ⟨R, hs, h⟩
  dynamicCode := by
    have spans := h.dynamicCode (fun {a a' b b'} ha hb hle => by rw [hs] at ha hb; rwa [ha, hb]) hd
    rw [hs, List.forall₂_eq_eq_eq] at spans
    rw [Rule.check, Rule.check, Rule.violations, Rule.violations, spans, h.path]
  missingAssertions assertions depth := by
    have spans := h.missingAssertions assertions depth
    rw [hs] at spans
    rw [Rule.check, Rule.check, h.path]
    exact spans.eq.map _

/-- **Forward references mean what backward references mean.** When no name is declared twice, a file whose types and
members are in another order has a unit that says the same, or neither file has a unit. -/
theorem ofTree_rearranged {s : Source} {root root' : Node} (path : String) (ht : s.tree? = some root)
    (hr : root.FileRearranged root') (hp : s.package? root' = s.package? root)
    (hd : (s.declarationsOf root).Distinct) : BothFaultOr SaysSame (ofTree path s root) (ofTree path s root') := by
  have shaped := Source.tree_shaped ht
  have inOrder := Source.tree_inOrder ht
  let names := NameTable.ofImports (s.package? root) (s.imports root)
  obtain ⟨fs, gs, h⟩ := Declarations.rearranged_sameItems hr (NameTable.ofImports_declared _ _) hd
  have apart : (Declarations.ofFile s names root).bodies.toList.Pairwise Body.Apart :=
    Declarations.ofFile_apart shaped inOrder names
  have nodes : ∀ b ∈ (Declarations.ofFile s names root).bodies.toList, b.node.Shaped :=
    Declarations.ofFile_shaped shaped inOrder names
  have units := (h.link_matches (s := s) nodes).units path (s.package? root) apart (h.bodies_apart apart)
    (List.forall₂_same.2 fun (i : Import) (_ : i ∈ s.imports root) => ⟨rfl, rfl, rfl, rfl⟩)
  have same : BothFaultOr (fun u u' => ∃ R : Correspondence, R.spans = (· = ·) ∧ u.Matches R u') (ofTree path s root)
      (ofTree path s root') := by
    rw [ofTree, ofTree, hp, hr.imports]
    exact units.mono fun u u' ⟨R, hg, hm⟩ => ⟨R, hg.spans, hm⟩
  refine same.mono_safe (ofTree_entries (s := s) shaped inOrder path) fun u u' ⟨es, hperm, hstarts, _⟩ ⟨R, hs, hm⟩ => ?_
  exact hm.saysSame hs (unsortedRoots_nodup hperm hstarts)

end CompilationUnit

/-! ## Two types in both orders -/

/-- the same tree with the children of its root the other way round -/
def Node.reversed (root : Node) : Node :=
  .mk root.kind root.role root.start root.stop root.children.reverse

theorem Node.reversed_rearranged {root : Node} (h : ∀ n ∈ root.children, n.kind.isTypeDeclaration = true) :
    root.FileRearranged root.reversed where
  children := ⟨_, (List.reverse_perm _).symm, List.forall₂_same.2 fun n _ => .same n⟩
  others := by
    have none : ∀ n ∈ root.children, ¬(!n.kind.isTypeDeclaration) = true := fun n hn => by simp [h n hn]
    rw [List.filter_eq_nil_iff.2 none]
    exact List.filter_eq_nil_iff.2 fun n hn => none n (List.mem_reverse.1 hn)

/-- no two methods of a type have one name, so that no two can take one call -/
def Declarations.MembersDistinct (d : Declarations) : Prop :=
  (d.types.toList.map (·.name)).Nodup ∧ ∀ ms ∈ d.members.toList,
    (ms.fields.map (·.1)).Nodup ∧ (ms.methods.map fun id => d.methods[id.index]?.map (·.name)).Nodup

instance (d : Declarations) : Decidable d.MembersDistinct :=
  inferInstanceAs (Decidable (_ ∧ _))

theorem Declarations.MembersDistinct.distinctNames {d : Declarations} (h : d.MembersDistinct) : d.DistinctNames where
  names := h.1
  fields id := by
    rw [membersOf]
    cases hms : d.members[id.index]? with
    | none => exact .nil
    | some ms => exact (h.2 ms (List.mem_of_getElem? (by rw [Array.getElem?_toList, hms]))).1
  methods id := by
    rw [membersOf]
    cases hms : d.members[id.index]? with
    | none => exact .nil
    | some ms =>
      have names := (h.2 ms (List.mem_of_getElem? (by rw [Array.getElem?_toList, hms]))).2
      exact (List.pairwise_map.1 names).imp fun hne m n hm hn hmn => absurd (by rw [hm, hn, Option.map_some, hmn]; rfl) hne

namespace Source

/-- a file of types without names declared twice -/
def TypesOnly (s : Source) (root : Node) : Prop :=
  (∀ n ∈ root.children, n.kind.isTypeDeclaration = true) ∧ (s.declarationsOf root).MembersDistinct

instance (s : Source) (root : Node) : Decidable (s.TypesOnly root) :=
  inferInstanceAs (Decidable (_ ∧ _))

theorem exists_tree {s : Source} {p : Node → Prop} [DecidablePred p] (h : s.tree?.any (fun root => p root) = true) :
    ∃ root, s.tree? = some root ∧ p root := by
  cases ht : s.tree? with
  | none => simp [ht] at h
  | some root => exact ⟨root, rfl, by simpa [ht] using h⟩

end Source

/-- a type that refers to a later one -/
def forwardReference : Source :=
  .ofBytes "class A \x7b final String c = B.N; \x7d class B \x7b static final String N = \"N\"; \x7d".toUTF8.toList

theorem forwardReference_saysSame :
    ∃ root, forwardReference.tree? = some root ∧
      BothFaultOr CompilationUnit.SaysSame (CompilationUnit.ofTree "T.java" forwardReference root)
        (CompilationUnit.ofTree "T.java" forwardReference root.reversed) := by
  have checked : forwardReference.tree?.any (fun root => forwardReference.TypesOnly root ∧
      ((forwardReference.declarationsOf root).types.toList.map (·.binaryName)).Nodup ∧
      forwardReference.package? root.reversed = forwardReference.package? root) = true := by
    decide +kernel
  obtain ⟨root, ht, ⟨htypes, hnames⟩, hbinary, hpackage⟩ := Source.exists_tree checked
  exact ⟨root, ht, CompilationUnit.ofTree_rearranged "T.java" ht (Node.reversed_rearranged htypes) hpackage
    ⟨hnames.distinctNames, hbinary⟩⟩

namespace CompilationUnit

/-- values of the variables of a name -/
def valuesOf (u : CompilationUnit) (name : String) : List (Option Literal) :=
  ((List.range u.variableDecls.size).map VariableId.mk).filterMap fun id => (u.variableAt? id).bind fun v =>
    if v.name = name then some (u.variableValue referenceLimit id) else none

theorem Matches.valuesOf {R : Correspondence} {u u' : CompilationUnit} (h : u.Matches R u') (name : String) :
    (u.valuesOf name).Perm (u'.valuesOf name) := by
  refine ((h.vars.indices VariableId.mk_bijective (fun _ => rfl) fun _ => rfl).filterMap fun a b hab => ?_).eq
  obtain ⟨v, v', hv, hv', hm⟩ := h.vars.related hab
  rw [hv, hv', Option.bind_some, Option.bind_some, hm.name, h.variableValue referenceLimit hab]
  exact optionRel_eq.2 rfl

end CompilationUnit

/-- both results are there and in a relation -/
def BothOk {α β : Type} (P : α → β → Prop) : Except Fault α → Except Fault β → Prop
  | .ok a, .ok b => P a b
  | _, _ => False

instance {α β : Type} (P : α → β → Prop) [∀ a b, Decidable (P a b)] (x : Except Fault α) (x' : Except Fault β) :
    Decidable (BothOk P x x') :=
  match x, x' with
  | .ok a, .ok b => inferInstanceAs (Decidable (P a b))
  | .ok _, .error _ => isFalse id
  | .error _, _ => isFalse id

/-- the types of the file, the other way round, make another unit, though no name is declared twice -/
def Source.OrderMatters (s : Source) : Prop :=
  ∃ root, s.tree? = some root ∧ root.FileRearranged root.reversed ∧ (s.declarationsOf root).DistinctNames ∧
    BothOk (fun u u' => ¬∃ R, CompilationUnit.Matches R u u') (CompilationUnit.ofTree "T.java" s root)
      (CompilationUnit.ofTree "T.java" s root.reversed)

/-- a difference between units that do not match -/
theorem Source.orderMatters_of {s : Source} (p : CompilationUnit → CompilationUnit → Prop) [∀ u u', Decidable (p u u')]
    (hp : ∀ R u u', CompilationUnit.Matches R u u' → ¬p u u')
    (h : s.tree?.any (fun root => s.TypesOnly root ∧
      BothOk p (CompilationUnit.ofTree "T.java" s root) (CompilationUnit.ofTree "T.java" s root.reversed)) = true) :
    s.OrderMatters := by
  obtain ⟨root, ht, ⟨htypes, hnames⟩, hunits⟩ := Source.exists_tree h
  refine ⟨root, ht, Node.reversed_rearranged htypes, hnames.distinctNames, ?_⟩
  cases hu : CompilationUnit.ofTree "T.java" s root <;> cases hu' : CompilationUnit.ofTree "T.java" s root.reversed <;>
    rw [hu, hu'] at hunits
  case ok.ok u u' => exact fun ⟨R, hm⟩ => hp R u u' hm hunits
  all_goals exact hunits

/-- a nested type and a type at the top with one binary name -/
def sameBinaryName : Source :=
  .ofBytes ("class A \x7b class B \x7b \x7d final String c = B.N; Object o = Class.forName(c); \x7d " ++
    "class A$B \x7b static final String N = \"N\"; \x7d").toUTF8.toList

/-- package declarations inside of types -/
def packagesInTypes : Source :=
  .ofBytes "class T \x7b void m() \x7b package a; \x7d \x7d class U \x7b void n() \x7b package b; \x7d \x7d".toUTF8.toList

/-- The order matters where a nested type has the binary name of another type, and where packages are declared inside of
types. -/
theorem order_matters : sameBinaryName.OrderMatters ∧ packagesInTypes.OrderMatters := by
  constructor
  · exact Source.orderMatters_of (fun u u' => ¬(u.valuesOf "c").Perm (u'.valuesOf "c"))
      (fun R u u' h hne => hne (h.valuesOf "c")) (by decide +kernel)
  · exact Source.orderMatters_of (fun u u' => u.package ≠ u'.package) (fun R u u' h hne => hne h.package)
      (by decide +kernel)

end CallLint
