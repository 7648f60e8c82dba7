/-
Where the owners of calls come from. An owner is the name of a type of the file, or of a type that a text in the file
means, or that of a static import, or one of three types of `java.lang` (`OwnerStated`). Two kinds of call can have
another owner, both by way of a superclass. A call on `super` has the name of the superclass even where the file does
not explain it, as it is written (`OwnerAsWritten`). And `super(...)` reads the superclass's binary name once more, as
if the file had written it, which can give the name of no type at all (`OwnerReadTwice`).

`Source.unit_owners` says that there are no other owners.
-/
import CallLint.Proofs.Grammar.NameWords
import CallLint.Proofs.Owners.Targets

namespace CallLint

/-! ## Erased names -/

namespace TypeName

/-- whether the character stands in dotted names -/
def isKept (c : Char) : Bool :=
  !(c = '<' || c = '>' || c = '[' || c = ']' || Text.isBlank c)

theorem eraseFrom_of_kept {cs : List Char} (h : ∀ c ∈ cs, isKept c = true) : eraseFrom 0 cs = cs := by
  induction cs with
  | nil => rfl
  | cons c cs ih =>
    obtain ⟨hc, hcs⟩ := List.forall_mem_cons.1 h
    have kept : (c ≠ '<' ∧ c ≠ '>') ∧ (c ≠ '[' ∧ c ≠ ']') ∧ Text.isBlank c = false := by
      simpa [isKept, and_assoc] using hc
    obtain ⟨⟨hopen, hclose⟩, ⟨hleft, hright⟩, hblank⟩ := kept
    simp [eraseFrom, hopen, hclose, hleft, hright, hblank, ih hcs]

theorem eraseFrom_kept (depth : Nat) (cs : List Char) : ∀ c ∈ eraseFrom depth cs, isKept c = true := by
  induction cs generalizing depth with
  | nil => simp [eraseFrom]
  | cons c cs ih =>
    rw [eraseFrom]
    split_ifs with hopen hclose hother
    · exact ih _
    · exact ih _
    · exact ih _
    · refine List.forall_mem_cons.2 ⟨?_, ih _⟩
      simp_all [isKept]

theorem dropEllipses_suffix (cs : List Char) : dropEllipses cs <:+ cs := by
  fun_induction dropEllipses with
  | case1 cs ih => exact ih.trans ⟨['.', '.', '.'], rfl⟩
  | case2 => exact List.suffix_refl _

theorem dropEllipses_idem (cs : List Char) : dropEllipses (dropEllipses cs) = dropEllipses cs := by
  fun_induction dropEllipses cs with
  | case1 cs ih => exact ih
  | case2 cs h => rw [dropEllipses.eq_2 cs h]

/-- **Erasing again changes nothing.** -/
theorem erase_erase (cs : List Char) : erase (erase cs) = erase cs := by
  have kept : ∀ c ∈ erase cs, isKept c = true := by
    intro c hc
    have hmem := (dropEllipses_suffix _).mem (List.mem_reverse.1 hc)
    exact eraseFrom_kept 0 cs c (List.mem_reverse.1 hmem)
  rw [erase, eraseFrom_of_kept kept, erase, List.reverse_reverse, dropEllipses_idem]

end TypeName

/-- an erased text means what the text means -/
theorem NameTable.resolve?_erase (names : NameTable) (written : String) :
    names.resolve? (String.ofList (TypeName.erase written.toList)) = names.resolve? written := by
  refine names.resolve?_congr ?_
  rw [String.toList_ofList, TypeName.erase_erase]

/-! ## Names in a file -/

/-- the import brings in the member of the owner -/
structure Import.Brings (i : Import) (member o : String) : Prop where
  isStatic : i.isStatic = true
  single : i.onDemand = false
  path : ∃ owner, Text.splitLast '.' i.path.toList = some (owner, member.toList) ∧
    o = String.ofList (TypeName.binary owner)

theorem NameTable.staticOwner?_addImport {t : NameTable} {i : Import} {member o : String}
    (h : (t.addImport i).staticOwner? member = some o) : t.staticOwner? member = some o ∨ i.Brings member o := by
  cases hdemand : i.onDemand with
  | true =>
    rw [addImport, hdemand, if_pos rfl] at h
    exact .inl h
  | false =>
    rw [addImport, hdemand, if_neg Bool.false_ne_true] at h
    cases hpath : Text.splitLast '.' i.path.toList with
    | none =>
      rw [hpath] at h
      exact .inl h
    | some parts =>
      obtain ⟨owner, name⟩ := parts
      rw [hpath] at h
      dsimp only at h
      split_ifs at h with hstatic
      · rw [staticOwner?, List.lookup_cons] at h
        split at h
        · rename_i hname
          refine .inr ⟨hstatic, hdemand, owner, ?_, (Option.some.inj h).symm⟩
          rw [hpath, beq_iff_eq.1 hname, String.toList_ofList]
        · exact .inl h
      · exact .inl h

/-- the owner of a statically imported member comes from one of the imports -/
theorem NameTable.staticOwner?_ofImports {package : Option String} {imports : List Import} {member o : String}
    (h : (ofImports package imports).staticOwner? member = some o) : ∃ i ∈ imports, i.Brings member o := by
  have all (t : NameTable) (h : (imports.foldl addImport t).staticOwner? member = some o) :
      t.staticOwner? member = some o ∨ ∃ i ∈ imports, i.Brings member o := by
    clear * - h
    induction imports generalizing t with
    | nil => exact .inl h
    | cons i is ih =>
      obtain hfirst | ⟨j, hj, hbrings⟩ := ih (t.addImport i) h
      · exact (staticOwner?_addImport hfirst).imp id fun hbrings => ⟨i, List.mem_cons_self, hbrings⟩
      · exact .inr ⟨j, List.mem_cons_of_mem i hj, hbrings⟩
  exact (all _ h).resolve_left nofun

mutual

/-- what stands within parentheses is in the node -/
theorem Node.unparenthesized_within : ∀ n : Node, n.unparenthesized ∈ n.within
  | .mk kind role start stop children => by
    rw [Node.unparenthesized]
    split_ifs
    · cases hinside : Node.unparenthesized.inside children with
      | none => exact Node.mem_within_self _
      | some m =>
        rw [Node.within]
        exact List.mem_cons_of_mem _ (unparenthesized_inside_within children hinside)
    · exact Node.mem_within_self _
termination_by structural n => n

theorem unparenthesized_inside_within : ∀ (ns : List Node) {m : Node}, Node.unparenthesized.inside ns = some m →
    m ∈ nodesWithin ns
  | [], _, h => nomatch h
  | n :: ns, m, h => by
    rw [Node.unparenthesized.inside] at h
    rw [nodesWithin, List.mem_append]
    split_ifs at h
    · cases h
      exact .inl (Node.unparenthesized_within n)
    · exact .inr (unparenthesized_inside_within ns h)
termination_by structural ns => ns

end

/-! ## Owners -/

/-- a text of the file means the type -/
def Source.Means (s : Source) (root : Node) (names : NameTable) (o : String) : Prop :=
  ∃ written, s.Writes root written ∧ names.resolve? written = some o

/-- a declaration of the file writes this as its superclass -/
def Source.WritesSuperclass (s : Source) (root : Node) (written : String) : Prop :=
  ∃ n ∈ root.within, Declarations.superclassText? s n = some written

/-- the types that code can mean without naming them -/
def unnamedTypes : List String :=
  ["java.lang.String", "java.lang.Class", "java.lang.Object"]

/-- the owner is a type of the file, or is stated in it -/
inductive OwnerStated (s : Source) (root : Node) (types : Array TypeDecl) (names : NameTable) (call : Call Expr) :
    String → Prop
  | declared {t : TypeDecl} : t ∈ types → OwnerStated s root types names call t.binaryName
  | named {o : String} : s.Means root names o → OwnerStated s root types names call o
  | imported {o : String} {i : Import} :
    call.receiver = none → i ∈ s.imports root → i.Brings call.name o → OwnerStated s root types names call o
  | unnamed {o : String} : o ∈ unnamedTypes → OwnerStated s root types names call o

/-- the node calls a method on `super` -/
def Node.IsSuperInvocation (n : Node) : Prop :=
  n.kind = .methodInvocation ∧ (n.child? .object).map (·.unparenthesized.kind) = some .superExpr

/-- the call is one on `super`, and its owner is a superclass as written that the file does not explain -/
structure OwnerAsWritten (s : Source) (root : Node) (names : NameTable) (call : Call Expr) (o : String) : Prop where
  site : ∃ n ∈ root.within, n.IsSuperInvocation ∧ call.span = s.spanOf n
  text : ∃ written, s.WritesSuperclass root written ∧ names.resolve? written = none ∧
    o = String.ofList (TypeName.erase written.toList)

/-- The call is `super(...)`, and its owner is what the superclass's binary name means as a written name: in a package
`p` with a class `p`, the superclass `p.A` gives the owner `p.p$A`. -/
structure OwnerReadTwice (s : Source) (root : Node) (names : NameTable) (call : Call Expr) (o : String) : Prop where
  site : ∃ n ∈ root.within, n.IsSuperCall ∧ call.span = s.spanOf n
  name : ∃ written name, s.WritesSuperclass root written ∧ names.resolve? written = some name ∧ o ≠ name ∧
    names.resolve? name = some o

/-- the owner of the call, if it has one, is stated in the file or comes from a superclass in one of two ways -/
def Call.OwnerKnown (s : Source) (root : Node) (types : Array TypeDecl) (names : NameTable) (call : Call Expr) : Prop :=
  ∀ o, call.owner = some o → OwnerStated s root types names call o ∨ OwnerAsWritten s root names call o ∨
    OwnerReadTwice s root names call o

namespace LowerContext

variable {s : Source} {root : Node} {d : Declarations} {c : LowerContext} {st : LowerState} {n : Node}
  {arguments : List Expr} {o : String}

/-- a superclass of a linked type is what its text means, or the text itself -/
theorem superclass_cases (hs : d.Stated s root) {t : TypeDecl} (ht : t ∈ d.types) (h : t.superclass = some o) :
    (∃ written, s.WritesSuperclass root written ∧ d.names.resolve? written = some o) ∨
      ∃ written, s.WritesSuperclass root written ∧ d.names.resolve? written = none ∧
        o = String.ofList (TypeName.erase written.toList) := by
  obtain ⟨n, hn, written, hwritten, hname⟩ := hs.superclasses t ht o h
  rw [NameTable.resolveOrErase] at hname
  cases hresolve : d.names.resolve? written with
  | none => exact .inr ⟨written, ⟨n, hn, hwritten⟩, hresolve, by rw [hname, hresolve, Option.getD_none]⟩
  | some name => exact .inl ⟨written, ⟨n, hn, hwritten⟩, by rw [hname, hresolve, Option.getD_some]⟩

theorem means_superclass {names : NameTable} {written : String} (h : s.WritesSuperclass root written)
    (hr : names.resolve? written = some o) : s.Means root names o := by
  obtain ⟨n, hn, hwritten⟩ := h
  exact ⟨written, .superclass hn hwritten, hr⟩

theorem means_type (hc : c.Stands s d) (hn : n ∈ root.within) (h : c.declaredType? n = some o) :
    s.Means root d.names o := by
  obtain ⟨m, hm, hresolve⟩ := Option.bind_eq_some_iff.1 h
  obtain ⟨rfl, rfl⟩ := hc
  exact ⟨_, .type hn hm, hresolve⟩

theorem means_typeOf (hst : st.Typed (s.Means root d.names)) {id : VariableId} (h : st.typeOf? id = some o) :
    s.Means root d.names o := by
  obtain ⟨v, hv, htype⟩ := Option.bind_eq_some_iff.1 h
  exact hst v (Array.mem_of_getElem? hv) o htype

/-- a chain of names means a type when it is read as one -/
theorem means_reference (hc : c.Stands s d) (hn : n ∈ root.within)
    (h : (c.typeReference? st n).bind c.declarations.names.resolve? = some o) : s.Means root d.names o := by
  obtain ⟨chain, hchain, hresolve⟩ := Option.bind_eq_some_iff.1 h
  obtain ⟨rfl, rfl⟩ := hc
  exact ⟨chain, .name hn (Option.filter_eq_some_iff.1 hchain).1, hresolve⟩

theorem means_access (hc : c.Stands s d) (hst : st.Typed (s.Means root d.names)) (hn : n ∈ root.within)
    (h : c.accessType? st n = some o) : s.Means root d.names o := by
  unfold accessType? at h
  split at h
  · dsimp only at h
    split at h
    · exact means_typeOf hst h
    · split_ifs at h
      exact means_reference hc hn h
  · cases h

/-- **The type of a receiver** is stated in the file, unless the receiver is `super`. -/
theorem receiverType?_cases (hs : d.Stated s root) (hc : c.Stands s d) (hst : st.Typed (s.Means root d.names))
    {object : Node} (hn : object ∈ root.within) (h : c.receiverType? st object = some o) (call : Call Expr) :
    OwnerStated s root d.types d.names call o ∨ (object.unparenthesized.kind = .superExpr ∧
      ∃ written, s.WritesSuperclass root written ∧ d.names.resolve? written = none ∧
        o = String.ofList (TypeName.erase written.toList)) := by
  have inside : object.unparenthesized ∈ root.within := root.within_trans hn object.unparenthesized_within
  unfold receiverType? at h
  dsimp only at h
  generalize object.unparenthesized = m at *
  split at h
  case h_1 =>
    obtain ⟨t, ht, rfl⟩ := Option.map_eq_some_iff.1 h
    rw [ownerDecl?, hc.declarations] at ht
    exact .inl (.declared (Array.mem_of_getElem? ht))
  case h_2 hk =>
    obtain ⟨t, ht, hsuper⟩ := Option.bind_eq_some_iff.1 h
    rw [ownerDecl?, hc.declarations] at ht
    obtain ⟨written, hwritten, hresolve⟩ | unexplained := superclass_cases hs (Array.mem_of_getElem? ht) hsuper
    · exact .inl (.named (means_superclass hwritten hresolve))
    · exact .inr ⟨hk, unexplained⟩
  case h_3 hk =>
    split at h
    · exact .inl (.named (means_typeOf hst h))
    · rw [resolve?, hc.declarations, textOf, hc.source] at h
      have chain : s.nameChain? m = some (s.textOf m) := by
        obtain ⟨kind, role, start, stop, children⟩ := m
        obtain rfl : kind = .identifier := hk
        rw [Source.nameChain?]
        rfl
      exact .inl (.named ⟨_, .name inside chain, h⟩)
  case h_4 => exact .inl (.named (means_access hc hst inside h))
  case h_5 | h_6 => exact .inl (.named (means_type hc inside h))
  case h_7 =>
    cases h
    exact .inl (.unnamed (by decide))
  case h_8 =>
    cases h
    exact .inl (.unnamed (by decide))
  case h_9 => cases h

/-- a method of the types around a call is owned by one of them, any other by what an import says -/
theorem unqualified_cases (hc : c.Stands s d) {name : String} {count : Nat}
    (h : (c.unqualified name count).1 = some o) :
    (∃ t ∈ d.types, o = t.binaryName) ∨ d.names.staticOwner? name = some o := by
  obtain ⟨-, rfl⟩ := hc
  unfold unqualified at h
  dsimp only at h
  split at h
  · obtain ⟨t, ht, rfl⟩ := Option.map_eq_some_iff.1 h
    exact .inl ⟨t, Array.mem_of_getElem? ht, rfl⟩
  · exact .inr h

theorem invoked_known (hs : d.Stated s root) (hc : c.Stands s d) (hst : st.Typed (s.Means root d.names))
    (himports : ∀ member o, d.names.staticOwner? member = some o → ∃ i ∈ s.imports root, i.Brings member o)
    (hn : n ∈ root.within) (hk : n.kind = .methodInvocation) {receiver : Option Expr}
    (hr : receiver.isSome = (n.child? .object).isSome) :
    (c.invoked st n arguments receiver).OwnerKnown s root d.types d.names := by
  intro o ho
  unfold invoked at ho ⊢
  cases hobject : n.child? .object with
  | none =>
    rw [hobject] at ho hr
    dsimp only at ho ⊢
    obtain ⟨t, ht, rfl⟩ | hstatic := unqualified_cases hc ho
    · exact .inl (.declared ht)
    · obtain ⟨i, hi, hbrings⟩ := himports _ o hstatic
      exact .inl (.imported (Option.isSome_eq_false_iff.1 hr |> Option.isNone_iff_eq_none.1) hi hbrings)
  | some object =>
    rw [hobject] at ho
    dsimp only at ho ⊢
    obtain hstated | ⟨hsuper, text⟩ := receiverType?_cases hs hc hst (Node.within_role hn hobject) ho _
    · exact .inl hstated
    · refine .inr (.inl ⟨⟨n, hn, ⟨hk, ?_⟩, ?_⟩, text⟩)
      · rw [hobject, Option.map_some, hsuper]
      · rw [← hc.source]
        rfl

theorem created_known (hc : c.Stands s d) (hn : n ∈ root.within) (body : List Expr) :
    (c.created n arguments body).OwnerKnown s root d.types d.names :=
  fun _ ho => .inl (.named (means_type hc hn ho))

theorem delegated_known (hs : d.Stated s root) (hc : c.Stands s d) (hn : n ∈ root.within)
    (hk : n.kind = .explicitConstructorInvocation) : (c.delegated n arguments).OwnerKnown s root d.types d.names := by
  intro o ho
  have owner : (c.constructed ((n.child? .constructor).map (·.kind))).1 = some o := ho
  unfold constructed at owner
  split at owner
  · rename_i t ht _
    rw [ownerDecl?, hc.declarations] at ht
    have declared : t ∈ d.types := Array.mem_of_getElem? ht
    split at owner
    · cases owner
      exact .inl (.declared declared)
    · rename_i hkeyword
      split at owner
      · rename_i name hname
        rw [hc.declarations] at owner
        obtain ⟨written, hwritten, hresolve⟩ | ⟨written, hwritten, hresolve, rfl⟩ := superclass_cases hs declared hname
        · by_cases same : o = name
          · exact .inl (.named (means_superclass hwritten (same ▸ hresolve)))
          · refine .inr (.inr ⟨⟨n, hn, ⟨hk, hkeyword⟩, ?_⟩, written, name, hwritten, hresolve, same, owner⟩)
            rw [← hc.source]
            rfl
        · -- what the file does not explain is not explained by reading it again
          rw [NameTable.resolve?_erase, hresolve] at owner
          cases owner
      · split_ifs at owner
        cases owner
        exact .inl (.unnamed (by decide))
    · cases owner
  · cases owner

end LowerContext

/-- the calls that are made at the nodes of a tree have known owners, and variables have types that the file states -/
theorem callLaw_ownerKnown {s : Source} {root : Node} (hroot : s.tree? = some root) :
    CallLaw s (s.declarationsOf root) root (s.Means root (s.declarationsOf root).names)
      (Call.OwnerKnown s root (s.declarationsOf root).types (s.declarationsOf root).names) := by
  have hs := s.declarationsOf_stated root
  have himports : ∀ member o, (s.declarationsOf root).names.staticOwner? member = some o →
      ∃ i ∈ s.imports root, i.Brings member o := by
    intro member o ho
    rw [s.declarationsOf_names root] at ho
    exact NameTable.staticOwner?_ofImports ho
  constructor
  case type => exact fun n hn m hm o ho => ⟨_, .type hn hm, ho⟩
  case parameter => exact fun n hn p hp o ho => ⟨_, .parameter hn hp, ho⟩
  case invocation =>
    intro c st n arguments receiver hc hst hn hk hr
    refine ⟨LowerContext.invoked_known hs hc hst himports hn hk hr, ?_⟩
    -- a method that is invoked does not go by the name of constructors
    rintro call ⟨⟩ hconstructor
    exfalso
    have named : ((n.child? .name).map c.textOf).getD "" = constructorName := by
      simpa [Call.isConstructor, LowerContext.invoked] using hconstructor
    cases hname : n.child? .name with
    | none =>
      rw [hname, Option.map_none, Option.getD_none] at named
      exact absurd named (by decide)
    | some m =>
      rw [hname, Option.map_some, Option.getD_some, LowerContext.textOf, hc.source] at named
      exact Source.tree_name hroot hn hname named
  case creation => exact fun c n arguments body hc hn _ => LowerContext.created_known hc hn body
  case delegation => exact fun c n arguments hc hn hk => LowerContext.delegated_known hs hc hn hk

/-- **Owners are stated.** When a call in the unit of a file without syntax errors has an owner, then that is a type of
the unit, or what a text in the file means, or the owner of the call's name in a static import, or one of three types of
`java.lang`; or the call is one on `super` and has the superclass as written, or it is a `super(...)` and has what the
superclass's binary name means. -/
theorem Source.unit_owners [Recovery] (s : Source) (path : String) :
    Safe (s.root.Faulty s)
      (fun u => u.hasParseErrors = false → ∀ call ∈ u.calls, ∀ o, call.owner = some o → ∃ root, s.tree? = some root ∧
        (OwnerStated s root u.types u.names call o ∨ OwnerAsWritten s root u.names call o ∨
          OwnerReadTwice s root u.names call o))
      (s.unit path) := by
  refine s.unit_of_tree path fun root hroot => ?_
  have fields := (s.declarationsOf_stated root).fields
  refine (CompilationUnit.ofTree_obeys (callLaw_ownerKnown hroot) fields path).mono id ?_
  intro u ⟨tells, hcalls⟩ call hcall o ho
  refine ⟨root, hroot, ?_⟩
  rw [tells.types, tells.names]
  exact hcalls call hcall o ho

/-- a class that calls a method on a superclass that the file does not explain -/
def unknownSuper : Source :=
  .ofBytes "class T extends Base\x7bvoid m()\x7bsuper.foo();\x7d\x7d".toUTF8.toList

/-- A call on a superclass that the file does not explain has an owner, which is its name as written. -/
theorem unknownSuper_asWritten :
    ∃ u, unknownSuper.unit "T.java" = .ok u ∧ u.names.resolve? "Base" = none ∧
      ∃ call ∈ u.calls, call.name = "foo" ∧ call.owner = some "Base" := by
  obtain ⟨u, hu, call, hcall, h⟩ := unknownSuper.exists_call "T.java"
    (fun u call => (u.names.resolve? "Base").isNone && call.name == "foo" && call.owner == some "Base")
    (by decide +kernel)
  rw [Bool.and_eq_true, Bool.and_eq_true, Option.isNone_iff_eq_none, beq_iff_eq, beq_iff_eq] at h
  exact ⟨u, hu, h.1.1, call, hcall, h.1.2, h.2⟩

end CallLint
