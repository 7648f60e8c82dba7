/-
Owners and targets of calls. A call whose target is known goes to a method of the type that it names as its owner, or to
one that this type inherits in the file (`OwnedBy`). One kind of call does not: `super(...)` takes its target from the
superclass itself, but its owner from the superclass's binary name, read once more as if the file had written it. That
name may mean nothing, or another type (`NamedAgain`).

`Source.unit_targets` says that all calls are of the one kind or the other.
-/
import CallLint.Proofs.Inheritance.Hierarchy
import CallLint.Proofs.Owners.Units

namespace CallLint

namespace Declarations

variable {s : Source} {root : Node} {d : Declarations} {t u : TypeId} {name : String} {arguments : Nat} {id : MethodId}

/-- the method that a type declares belongs to the type -/
theorem Stated.ownMethod? (h : d.Stated s root) (hm : d.ownMethod? t name arguments = some id) :
    ∃ m, d.methods[id.index]? = some m ∧ m.owner = t :=
  h.methods t id (List.mem_of_find?_eq_some hm)

/-- a method that is found for a type belongs to a type that it inherits from -/
theorem Stated.methodIn? (h : d.Stated s root) (hm : d.methodIn? t name arguments = some (u, id)) :
    Inherits d.types t u ∧ ∃ m, d.methods[id.index]? = some m ∧ m.owner = u := by
  obtain ⟨v, hv, hfound⟩ := List.exists_of_findSome?_eq_some hm
  obtain ⟨m, hown, heq⟩ := Option.map_eq_some_iff.1 hfound
  cases heq
  exact ⟨(mem_hierarchy_iff.1 hv).1, h.ownMethod? hown⟩

end Declarations

/-! ## Owners beside targets -/

/-- the owner is a type of the file that is the declaring one or inherits from it -/
def OwnedBy (types : Array TypeDecl) (owner : Option String) (declaring : TypeId) : Prop :=
  ∃ id t, types[id.index]? = some t ∧ owner = some t.binaryName ∧ Inherits types id declaring

/-- the node calls a constructor of the superclass -/
def Node.IsSuperCall (n : Node) : Prop :=
  n.kind = .explicitConstructorInvocation ∧ (n.child? .constructor).map (·.kind) = some .superExpr

/-- The call is `super(...)` in a class below the declaring type, and its owner is what that type's binary name means as
a written name, which is not the type. -/
structure NamedAgain (s : Source) (root : Node) (names : NameTable) (types : Array TypeDecl) (call : Call Expr)
    (declaring : TypeId) : Prop where
  site : ∃ n ∈ root.within, n.IsSuperCall ∧ call.span = s.spanOf n
  below : ∃ t ∈ types, t.superclassId = some declaring
  owner : ∃ t, types[declaring.index]? = some t ∧ call.owner = names.resolve? t.binaryName ∧
    call.owner ≠ some t.binaryName

/-- the call's owner fits its target, or the owner's name is read twice -/
def Call.TargetOwned (s : Source) (root : Node) (d : Declarations) (call : Call Expr) : Prop :=
  ∀ target, call.target = some target → ∃ m, d.methods[target.index]? = some m ∧
    (OwnedBy d.types call.owner m.owner ∨ NamedAgain s root d.names d.types call m.owner)

namespace LowerContext

variable {s : Source} {root : Node} {d : Declarations} {c : LowerContext} {st : LowerState} {n : Node} {name : String}
  {arguments : List Expr} {target : MethodId}

/-- a method of the types around a call is owned by the type that declares it -/
theorem unqualified_owned (hd : d.Sound) (hs : d.Stated s root) (hc : c.Stands s d) {count : Nat}
    (h : (c.unqualified name count).2 = some target) :
    ∃ m, d.methods[target.index]? = some m ∧ OwnedBy d.types (c.unqualified name count).1 m.owner := by
  obtain ⟨rfl, rfl⟩ := hc
  unfold unqualified at h ⊢
  dsimp only at h ⊢
  cases hfound : (c.declarations.enclosingChain c.owner).findSome? fun t => c.declarations.methodIn? t name count with
  | none => simp [hfound] at h
  | some found =>
    obtain ⟨t, id⟩ := found
    rw [hfound] at h
    cases h
    obtain ⟨u, -, hu⟩ := List.exists_of_findSome?_eq_some hfound
    obtain ⟨-, m, hm, rfl⟩ := hs.methodIn? hu
    obtain ⟨decl, hdecl⟩ := Declarations.exists_typeAt? (hd.methods m (Array.mem_of_getElem? hm)).1
    refine ⟨m, hm, m.owner, decl, hdecl, ?_, .self _⟩
    dsimp only
    rw [hdecl]
    rfl

/-- a method that is found for a receiver is one that the receiver's type inherits -/
theorem qualified_owned (hs : d.Stated s root) (hc : c.Stands s d) {object : Node} {count : Nat}
    (h : (c.qualified st object name count).2 = some target) :
    ∃ m, d.methods[target.index]? = some m ∧ OwnedBy d.types (c.qualified st object name count).1 m.owner := by
  obtain ⟨rfl, rfl⟩ := hc
  obtain ⟨⟨u, id⟩, hfound, rfl⟩ := Option.map_eq_some_iff.1 h
  obtain ⟨t, htype, hm⟩ := Option.bind_eq_some_iff.1 hfound
  obtain ⟨o, ho, hnamed⟩ := Option.bind_eq_some_iff.1 htype
  obtain ⟨decl, hdecl, rfl⟩ := Declarations.typeAt?_of_typeNamed? hnamed
  obtain ⟨hinherits, m, hmethod, rfl⟩ := hs.methodIn? hm
  exact ⟨m, hmethod, t, decl, hdecl, ho, hinherits⟩

theorem invoked_owned (hd : d.Sound) (hs : d.Stated s root) (hc : c.Stands s d) (receiver : Option Expr) :
    (c.invoked st n arguments receiver).TargetOwned s root d := by
  intro target htarget
  unfold invoked at htarget ⊢
  cases hobject : n.child? .object with
  | none =>
    rw [hobject] at htarget
    obtain ⟨m, hm, howned⟩ := unqualified_owned hd hs hc htarget
    exact ⟨m, hm, .inl howned⟩
  | some object =>
    rw [hobject] at htarget
    obtain ⟨m, hm, howned⟩ := qualified_owned hs hc htarget
    exact ⟨m, hm, .inl howned⟩

theorem constructor?_owner (hs : d.Stated s root) (hc : c.Stands s d) {type : Option TypeId} {count : Nat}
    (h : c.constructor? type count = some target) :
    ∃ t, type = some t ∧ ∃ m, d.methods[target.index]? = some m ∧ m.owner = t := by
  obtain ⟨rfl, rfl⟩ := hc
  obtain ⟨t, htype, hm⟩ := Option.bind_eq_some_iff.1 h
  exact ⟨t, htype, hs.ownMethod? hm⟩

theorem created_owned (hs : d.Stated s root) (hc : c.Stands s d) (body : List Expr) :
    (c.created n arguments body).TargetOwned s root d := by
  intro target htarget
  obtain ⟨t, htype, m, hm, rfl⟩ := constructor?_owner hs hc htarget
  obtain ⟨o, ho, hnamed⟩ := Option.bind_eq_some_iff.1 htype
  rw [hc.declarations] at hnamed
  obtain ⟨decl, hdecl, rfl⟩ := Declarations.typeAt?_of_typeNamed? hnamed
  exact ⟨m, hm, .inl ⟨m.owner, decl, hdecl, ho, .self _⟩⟩

/-- what an explicit constructor call constructs: the type around it, or the superclass, whose name is read again -/
theorem constructed_cases {keyword : Option NodeKind} {t : TypeId} (hd : d.Sound) (hc : c.Stands s d)
    (h : (c.constructed keyword).2 = some t) :
    (∃ decl, d.typeAt? t = some decl ∧ (c.constructed keyword).1 = some decl.binaryName) ∨
      (keyword = some .superExpr ∧ (∃ sub ∈ d.types, sub.superclassId = some t) ∧
        ∃ decl, d.typeAt? t = some decl ∧ (c.constructed keyword).1 = d.names.resolve? decl.binaryName) := by
  obtain ⟨rfl, rfl⟩ := hc
  unfold constructed at h ⊢
  split at h
  · rename_i sub hsub _
    split at h
    · cases h
      exact .inl ⟨sub, hsub, rfl⟩
    · have hmem : sub ∈ c.declarations.types := Array.mem_of_getElem? hsub
      cases hsuper : sub.superclass with
      | none =>
        rw [hsuper] at h
        obtain ⟨-, decl, -, hname⟩ := hd.superclass c.owner.index sub hsub t h
        rw [hsuper] at hname
        cases hname
      | some superclass =>
        rw [hsuper] at h
        obtain ⟨-, decl, hdecl, hname⟩ := hd.superclass c.owner.index sub hsub t h
        rw [hsuper] at hname
        cases hname
        exact .inr ⟨rfl, ⟨sub, hmem, h⟩, decl, hdecl, rfl⟩
    · cases h
  · cases h

theorem delegated_owned (hd : d.Sound) (hs : d.Stated s root) (hc : c.Stands s d) (hn : n ∈ root.within)
    (hk : n.kind = .explicitConstructorInvocation) : (c.delegated n arguments).TargetOwned s root d := by
  intro target htarget
  obtain ⟨t, htype, m, hm, rfl⟩ := constructor?_owner hs hc htarget
  refine ⟨m, hm, ?_⟩
  obtain ⟨decl, hdecl, howner⟩ | ⟨hkeyword, below, decl, hdecl, howner⟩ := constructed_cases hd hc htype
  · exact .inl ⟨m.owner, decl, hdecl, howner, .self _⟩
  · by_cases same : (c.delegated n arguments).owner = some decl.binaryName
    · exact .inl ⟨m.owner, decl, hdecl, same, .self _⟩
    · refine .inr ⟨⟨n, hn, ⟨hk, hkeyword⟩, ?_⟩, below, decl, hdecl, howner, same⟩
      rw [← hc.source]
      rfl

end LowerContext

/-- the calls that are made at the nodes of a tree have owners that fit their targets, but for names read twice -/
theorem callLaw_targetOwned (s : Source) (root : Node) :
    CallLaw s (s.declarationsOf root) root (fun _ => True) (Call.TargetOwned s root (s.declarationsOf root)) := by
  have hd := s.declarationsOf_sound root
  have hs := s.declarationsOf_stated root
  constructor
  case type => exact fun _ _ _ _ _ _ => trivial
  case parameter => exact fun _ _ _ _ _ _ => trivial
  case invocation =>
    intro c st n arguments receiver hc _ _ _ _
    exact ⟨LowerContext.invoked_owned hd hs hc receiver, fun _ _ _ _ _ => trivial⟩
  case creation => exact fun c n arguments body hc _ _ => LowerContext.created_owned hs hc body
  case delegation => exact fun c n arguments hc hn hk => LowerContext.delegated_owned hd hs hc hn hk

/-- **Targets are owned.** When the target of a call in a file's unit is known, it is a method of the unit, and the
call's owner is the type that declares the method or one that inherits from it in the unit; or the call is a
`super(...)` whose owner is the superclass's binary name read once more, as a name that the file had written. -/
theorem Source.unit_targets [Recovery] (s : Source) (path : String) :
    Safe (s.root.Faulty s)
      (fun u => ∀ call ∈ u.calls, ∀ target, call.target = some target →
        ∃ m, u.methodAt? target = some m ∧
          (OwnedBy u.types call.owner m.owner ∨ NamedAgain s s.root u.names u.types call m.owner))
      (s.unit path) := by
  refine s.unit_of_root path ?_ fun _ => id
  have calls := CompilationUnit.ofTree_obeys (callLaw_targetOwned s s.root) (fun _ _ _ _ => trivial) path
  refine calls.mono id fun u ⟨tells, hcalls⟩ call hcall target htarget => ?_
  obtain ⟨m, hm, howned⟩ := hcalls call hcall target htarget
  obtain ⟨m', hm', howner⟩ := tells.owner target m hm
  refine ⟨m', hm', ?_⟩
  rw [tells.types, tells.names, howner]
  exact howned

/-- a class that calls the constructor of a nested superclass -/
def nestedSuper : Source :=
  .ofBytes ("class Outer\x7bstatic class A\x7bA()\x7b\x7d\x7d" ++
    "static class B extends A\x7bB()\x7bsuper();\x7d\x7d\x7d").toUTF8.toList

/-- The call of a nested superclass's constructor goes to the constructor and has no owner. -/
theorem nestedSuper_ownerless :
    ∃ u, nestedSuper.unit "Outer.java" = .ok u ∧ ∃ call ∈ u.calls, call.target = some ⟨0⟩ ∧ call.owner = none := by
  obtain ⟨u, hu, call, hcall, h⟩ := nestedSuper.exists_call "Outer.java"
    (fun _ call => call.target == some ⟨0⟩ && call.owner == none) (by decide +kernel)
  exact ⟨u, hu, call, hcall, by simpa using h⟩

end CallLint
