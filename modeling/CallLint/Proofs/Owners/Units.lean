/-
What holds of every call of a unit: a property of the calls that are made at the nodes of a tree is one of all calls in the
tree's unit (`CompilationUnit.ofTree_obeys`). The property may speak of the declarations of the tree; `Tells` says what of
them is still in the unit.
-/
import CallLint.Proofs.Owners.Collected
import CallLint.Proofs.Rearranged.Files
import CallLint.Proofs.References.Units

namespace CallLint

theorem Source.declarationsOf_stated (s : Source) (root : Node) : (s.declarationsOf root).Stated s root :=
  Declarations.ofFile_stated s (NameTable.ofImports_declared (s.package? root) (s.imports root)) root

/-- names of a file mean what its imports and its types make them mean -/
theorem Source.declarationsOf_names (s : Source) (root : Node) :
    (s.declarationsOf root).names =
      { NameTable.ofImports (s.package? root) (s.imports root) with
        declared := (s.declarationsOf root).types.toList.map fun t => (t.name, t.binaryName) } :=
  Declarations.ofFile_names s (NameTable.ofImports_declared (s.package? root) (s.imports root)) root

namespace CompilationUnit

/-- what names mean in the unit: by its package, its imports and its types -/
def names (u : CompilationUnit) : NameTable :=
  { NameTable.ofImports u.package u.imports with declared := u.types.toList.map fun t => (t.name, t.binaryName) }

variable {s : Source} {d : Declarations} {root : Node} {T : String → Prop} {Q : Call Expr → Prop} {u : CompilationUnit}

/-! ## Calls of a unit -/

/-- a walk visits the calls in the bodies of methods, in the initializers of fields and in initializer blocks -/
theorem mem_calls {call : Call Expr} :
    call ∈ u.calls ↔ (∃ m ∈ u.methods, ∃ es, m.body = some es ∧ call ∈ listCalls es) ∨
      (∃ v ∈ u.variableDecls, v.kind = .field ∧ ∃ e, v.initializer = some e ∧ call ∈ listCalls [e]) ∨
      ∃ b ∈ u.blocks, call ∈ listCalls b.body := by
  have roots (es : List Expr) :
      es ∈ u.roots ↔ ∃ start, (start, es) ∈ u.methodRoots ++ u.fieldRoots ++ u.blockRoots := by
    simp [CompilationUnit.roots, List.mem_mergeSort]
  rw [calls_eq, List.mem_flatMap]
  constructor
  · rintro ⟨es, hes, hcall⟩
    obtain ⟨start, hroot⟩ := (roots es).1 hes
    rw [List.mem_append, List.mem_append] at hroot
    obtain (hroot | hroot) | hroot := hroot
    · obtain ⟨m, hm, hcode⟩ := List.mem_filterMap.1 hroot
      obtain ⟨body, hbody, heq⟩ := Option.map_eq_some_iff.1 hcode
      cases heq
      exact .inl ⟨m, Array.mem_toList_iff.1 hm, es, hbody, hcall⟩
    · obtain ⟨v, hv, hcode⟩ := List.mem_filterMap.1 hroot
      obtain ⟨init, hinit, heq⟩ := Option.map_eq_some_iff.1 hcode
      cases heq
      obtain ⟨hv, hkind⟩ := List.mem_filter.1 hv
      exact .inr (.inl ⟨v, Array.mem_toList_iff.1 hv, by simpa using hkind, init, hinit, hcall⟩)
    · obtain ⟨b, hb, heq⟩ := List.mem_map.1 hroot
      cases heq
      exact .inr (.inr ⟨b, hb, hcall⟩)
  · rintro (⟨m, hm, es, hbody, hcall⟩ | ⟨v, hv, hkind, e, hinit, hcall⟩ | ⟨b, hb, hcall⟩)
    · refine ⟨es, (roots es).2 ⟨m.span.startByte, ?_⟩, hcall⟩
      refine List.mem_append_left _ (List.mem_append_left _ (List.mem_filterMap.2 ⟨m, Array.mem_toList_iff.2 hm, ?_⟩))
      rw [hbody, Option.map_some]
    · refine ⟨[e], (roots [e]).2 ⟨v.span.startByte, ?_⟩, hcall⟩
      have hfield : v ∈ u.variableDecls.toList.filter (·.kind == .field) := by
        simpa [hkind] using hv
      refine List.mem_append_left _ (List.mem_append_right _ (List.mem_filterMap.2 ⟨v, hfield, ?_⟩))
      rw [hinit, Option.map_some]
    · exact ⟨b.body, (roots b.body).2 ⟨b.span.startByte, List.mem_append_right _ (List.mem_map.2 ⟨b, hb, rfl⟩)⟩, hcall⟩

/-- **The property holds of all calls that a walk visits.** -/
theorem Lawful.calls {law : CallLaw s d root T Q} (h : u.Lawful law.lowering d) : ∀ call ∈ u.calls, Q call := by
  intro call hcall
  obtain ⟨m, hm, es, hbody, hcall⟩ | ⟨v, hv, -, e, hinit, hcall⟩ | ⟨b, hb, hcall⟩ := mem_calls.1 hcall
  · obtain ⟨e, he, hcall⟩ := mem_listCalls.1 hcall
    exact h.methodBodies m hm es hbody e he call hcall
  · obtain ⟨x, hx, hin⟩ := mem_listCalls.1 hcall
    obtain rfl := List.mem_singleton.1 hx
    exact (h.state v hv).initializer x hinit call hin
  · obtain ⟨e, he, hcall⟩ := mem_listCalls.1 hcall
    exact (h.blocks b hb).2 e he call hcall

/-! ## The whole unit -/

/-- the unit has the types and the names of the declarations, and methods with the same owners -/
structure Tells (d : Declarations) (u : CompilationUnit) : Prop where
  types : u.types = d.types
  names : u.names = d.names
  owner : ∀ (id : MethodId) (m : MethodDecl), d.methods[id.index]? = some m →
    ∃ m', u.methodAt? id = some m' ∧ m'.owner = m.owner

theorem Lawful.tells {L : LoweringLaw} (h : u.Lawful L d) (hn : u.names = d.names) : u.Tells d := by
  refine ⟨h.types, hn, fun id m hm => ?_⟩
  obtain ⟨m', hm', heq⟩ := h.method hm
  exact ⟨m', hm', congrArg (·.owner) heq⟩

theorem ofTree_names_eq (s : Source) (path : String) (root : Node) :
    Safe True (fun u => u.names = (s.declarationsOf root).names) (ofTree path s root) := by
  unfold ofTree
  dsimp only
  rw [← Array.foldlM_toList]
  refine (lowerBodies_sameHead s _ _ _).mono id fun u hsame => ?_
  rw [CompilationUnit.names, hsame.package, hsame.imports, hsame.types]
  exact (s.declarationsOf_names root).symm

theorem ofTree_tells (s : Source) (path : String) (root : Node) :
    Safe True (Tells (s.declarationsOf root)) (ofTree path s root) :=
  ((ofTree_references s path root).and (ofTree_names_eq s path root)).mono id fun _ ⟨hu, hnames⟩ => hu.tells hnames

/-- **What holds of the calls that are made at the nodes of a tree holds of all calls in its unit.** -/
theorem ofTree_each (law : CallLaw s (s.declarationsOf root) root T Q)
    (hf : ∀ v ∈ (s.declarationsOf root).fields, ∀ o, v.declaredType = some o → T o) (path : String) :
    Safe True (Lawful law.lowering (s.declarationsOf root)) (ofTree path s root) := by
  have stated := s.declarationsOf_stated root
  have fields : ∀ v ∈ (s.declarationsOf root).fields, v.Obeys T Q := by
    refine fun v hv => ⟨hf v hv, fun e he => ?_⟩
    rw [(s.declarationsOf_sound root).withoutInitializer v hv] at he
    cases he
  exact ofTree_lawful (L := law.lowering) le_rfl fields (fun b hb _ => ⟨⟨rfl, rfl⟩, stated.bodies b hb⟩) path

/-- all calls that a walk visits obey the law, and the unit tells of the declarations that the law may speak of -/
theorem ofTree_obeys (law : CallLaw s (s.declarationsOf root) root T Q)
    (hf : ∀ v ∈ (s.declarationsOf root).fields, ∀ o, v.declaredType = some o → T o) (path : String) :
    Safe True (fun u => u.Tells (s.declarationsOf root) ∧ ∀ call ∈ u.calls, Q call) (ofTree path s root) :=
  (ofTree_tells s path root).and ((ofTree_each law hf path).mono id fun _ hu => hu.calls)

end CompilationUnit

/-- a call that is found in the body of a method is one of the unit -/
theorem Source.exists_call [Recovery] (s : Source) (path : String) (p : CompilationUnit → Call Expr → Bool)
    (h : (s.unit path).toOption.any (fun u => u.methods.any fun m => m.body.any fun es => (listCalls es).any (p u)) =
      true) :
    ∃ u, s.unit path = .ok u ∧ ∃ call ∈ u.calls, p u call = true := by
  cases hu : s.unit path with
  | error fault =>
    rw [hu] at h
    cases h
  | ok u =>
    rw [hu] at h
    obtain ⟨m, hm, h⟩ := Array.any_eq_true'.1 h
    obtain ⟨es, hes, h⟩ := (Option.any_eq_true _ _).1 h
    obtain ⟨call, hcall, h⟩ := List.any_eq_true.1 h
    exact ⟨u, rfl, call, CompilationUnit.mem_calls.2 (.inl ⟨m, hm, es, hes, hcall⟩), h⟩

end CallLint
