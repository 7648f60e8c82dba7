/-
The outline of a tree, and that collecting a tree adds its outline. The outline is a sum over members and types, with
one function for each kind of member; what is collected for a node is its outline, whatever was collected before
(`collect_adds`), by one induction over the tree.
-/
import CallLint.Proofs.Rearranged.Outline
import CallLint.Source.Analysis

namespace CallLint

/-! ## Outlines of nodes -/

/-- whether members of a type are public and its fields final without saying so -/
def TypeDecl.isInterface (t : TypeDecl) : Bool :=
  t.kind == .interface || t.kind == .annotationType

namespace Source

variable (s : Source)

/-- one declarator of a field -/
def declaratorOutline (t : TypeDecl) (type : String) (isFinal : Bool) (n : Node) : Outline :=
  match n.child? .name with
  | none => 0
  | some name =>
    let field : FieldItem := ⟨t.name, ⟨s.textOf name, .field, none, isFinal, none, s.spanOf n⟩, type⟩
    (0, {field}, 0, 0) +
      match n.child? .value with
      | none => 0
      | some value => (0, 0, 0, {.field field value})

def fieldsOutline (t : TypeDecl) (n : Node) : Outline :=
  ((n.childrenIn .declarator).map (s.declaratorOutline t (((n.child? .type).map s.textOf).getD "")
    (t.isInterface || (s.modifiersOf n).isFinal))).sum

/-- name of a method or constructor -/
def methodName? (n : Node) : Option String :=
  if n.kind == .methodDeclaration then (n.child? .name).map s.textOf else some constructorName

/-- a method of a type without its body -/
def methodHeader (owner : TypeId) (isInterface : Bool) (name : String) (n : Node) : MethodDecl :=
  let (count, varargs) :=
    match n.child? .parameters with
    | some params =>
      let ps := s.parametersOf params
      (ps.length, ps.any (·.isSpread))
    | none => (0, n.kind == .compactConstructorDeclaration)
  { name := name
    owner := owner
    parameterCount := count
    varargs := varargs
    isPublic := (s.modifiersOf n).isPublic || isInterface
    isAbstract := (s.modifiersOf n).isAbstract || (isInterface && !(n.child? .body).isSome)
    annotations := (s.modifiersOf n).annotations
    body := none
    nameSpan := s.spanOf ((n.child? .name).getD n)
    span := s.spanOf n }

def methodOutline (t : TypeDecl) (n : Node) : Outline :=
  match s.methodName? n with
  | none => 0
  | some name =>
    let method : MethodItem := ⟨t.name, s.methodHeader ⟨0⟩ t.isInterface name n⟩
    (0, 0, {method}, 0) + if (n.child? .body).isSome then (0, 0, 0, {.method method n}) else 0

/-- a member that is no type -/
def memberOutline (t : TypeDecl) (n : Node) : Outline :=
  match n.kind with
  | .fieldDeclaration => s.fieldsOutline t n
  | .constantDeclaration => s.fieldsOutline t n
  | .methodDeclaration => s.methodOutline t n
  | .constructorDeclaration => s.methodOutline t n
  | .compactConstructorDeclaration => s.methodOutline t n
  | .staticInitializer => (0, 0, 0, {.block t.name n})
  | .block => (0, 0, 0, {.block t.name n})
  | .enumConstant =>
    if (n.child? .arguments).isSome || (n.child? .body).isSome then (0, 0, 0, {.block t.name n}) else 0
  | _ => 0

/-- a type by its own, inside another or not -/
def typeHeader (names : NameTable) (outer : Option TypeDecl) (n name : Node) : TypeDecl :=
  ⟨s.textOf name, names.declaredName (outer.map (·.binaryName)) (s.textOf name), Declarations.typeKindOf n, none,
    Declarations.superclassText? s n, none, s.spanOf n⟩

/-- the components of a record as fields -/
def componentsOutline (t : TypeDecl) (n : Node) : Outline :=
  match n.child? .parameters with
  | some params =>
    ((s.parametersOf params).map fun p =>
      ((0, {⟨t.name, ⟨p.name, .field, none, true, none, s.spanOf params⟩, p.type⟩}, 0, 0) : Outline)).sum
  | none => 0

/-- a type without the members of its body -/
def headerOutline (t : TypeDecl) (outer : Option TypeDecl) (n : Node) : Outline :=
  ({⟨t, outer.map (·.name)⟩}, 0, 0, 0) + if t.kind = .record then s.componentsOutline t n else 0

mutual

/-- what is collected of a node as a member of a type, or at the top of a file -/
def outlineOf (names : NameTable) (outer : Option TypeDecl) : Node → Outline
  | .mk kind role start stop children =>
    let n : Node := .mk kind role start stop children
    if kind.isTypeDeclaration then
      match n.child? .name with
      | none => 0
      | some name =>
        let t := s.typeHeader names outer n name
        s.headerOutline t outer n + bodyOutline names t children
    else
      match outer with
      | none => 0
      | some t => if kind == .enumBodyDeclarations then outlineOfAll names (some t) children else s.memberOutline t n
termination_by structural n => n

/-- what is collected of the body among a type's children -/
def bodyOutline (names : NameTable) (t : TypeDecl) : List Node → Outline
  | [] => 0
  | .mk _ role _ _ children :: rest =>
    if role == some .body then outlineOfAll names (some t) children else bodyOutline names t rest
termination_by structural ns => ns

def outlineOfAll (names : NameTable) (outer : Option TypeDecl) : List Node → Outline
  | [] => 0
  | n :: ns => outlineOf names outer n + outlineOfAll names outer ns
termination_by structural ns => ns

end

end Source

/-! ## What is collected -/

namespace Declarations

variable {s : Source} {d : Declarations} {owner : TypeId} {t : TypeDecl}

/-- the type is declared with this id, inside whatever type -/
def Declares (d : Declarations) (id : TypeId) (t : TypeDecl) : Prop :=
  ∃ u, d.typeAt? id = some u ∧ { u with enclosing := none } = t

theorem Declares.isInterface (h : d.Declares owner t) : d.isInterface owner = t.isInterface := by
  obtain ⟨u, hu, rfl⟩ := h
  rw [Declarations.isInterface, hu]
  rfl

theorem Declares.typeAt? (h : d.Declares owner t) : ∃ u, d.typeAt? owner = some u ∧ u.name = t.name := by
  obtain ⟨u, hu, rfl⟩ := h
  exact ⟨u, hu, rfl⟩

theorem Adds.declares {o : Outline} {d' : Declarations} (h : Adds o d d') (ht : d.Declares owner t) :
    d'.Declares owner t := by
  obtain ⟨u, hu, hut⟩ := ht
  exact ⟨u, h.typeAt? hu, hut⟩

theorem field_adds (ht : d.Declares owner t) (name type : String) (isFinal : Bool) (span : Span) :
    Adds (0, {⟨t.name, ⟨name, .field, none, isFinal, none, span⟩, type⟩}, 0, 0) d
      (d.addField owner name type isFinal span) := by
  obtain ⟨u, hu, hname⟩ := ht.typeAt?
  rw [← hname]
  exact addField_adds hu name type isFinal span

/-- the field that was added last, with its initializer -/
theorem fieldBody_adds (ht : d.Declares owner t) (name type : String) (isFinal : Bool) (span : Span) (value : Node) :
    Adds (0, 0, 0, {.field ⟨t.name, ⟨name, .field, none, isFinal, none, span⟩, type⟩ value})
      (d.addField owner name type isFinal span)
      ((d.addField owner name type isFinal span).addBody (.field ⟨d.fields.size⟩ owner value)) := by
  let v : VariableDecl := ⟨name, .field, none, isFinal, none, span⟩
  refine addBody_adds fun fs hc => ?_
  obtain ⟨u, hu, hname⟩ := ((field_adds ht name type isFinal span).declares ht).typeAt?
  have small : owner.index < d.members.size := by
    have size := hc.members
    rw [addField, Array.size_modify] at size
    exact size ▸ (Array.getElem?_eq_some_iff.1 hu).1
  have there : (name, ⟨d.fields.size⟩) ∈ ((d.addField owner name type isFinal span).membersOf owner).fields := by
    change (name, _) ∈ ((d.members.modify _ _)[owner.index]?.getD ⟨[], []⟩).fields
    rw [membersOf_modify small owner, if_pos rfl]
    exact List.mem_cons_self
  obtain ⟨f, hf, howner, -⟩ := (hc.fieldMembers owner name ⟨d.fields.size⟩).1 there
  have decls : d.fields.toList ++ [v] = fs.map (·.decl) := by rw [← hc.fields]; simp [addField, v]
  have types : d.fieldTypes.toList ++ [type] = fs.map (·.type) := by rw [← hc.fieldTypes]; simp [addField]
  have sizes : d.fieldTypes.size = d.fields.size := by
    have := congrArg List.length decls
    have := congrArg List.length types
    simp at *
    omega
  have decl : f.decl = v := by
    have last := congrArg (·[d.fields.size]?) decls
    simpa [hf] using last.symm
  have type : f.type = type := by
    have last := congrArg (·[d.fieldTypes.size]?) types
    rw [← sizes] at hf
    simpa [hf] using last.symm
  refine ⟨⟨f, hf, howner⟩, ?_⟩
  rw [bodyItem, hf, Option.getD_some, fieldItem, howner, nameOf_of_typeAt hu, hname, decl, type]

/-- one field more, with its initializer -/
def addDeclarator (s : Source) (owner : TypeId) (type : String) (isFinal : Bool) (n : Node) (d : Declarations) :
    Declarations :=
  match n.child? .name with
  | none => d
  | some name =>
    let id : VariableId := ⟨d.fields.size⟩
    let d := d.addField owner (s.textOf name) type isFinal (s.spanOf n)
    match n.child? .value with
    | none => d
    | some value => d.addBody (.field id owner value)

/-- whether fields are final is told once for all of a declaration -/
theorem addFields_eq (s : Source) (owner : TypeId) (n : Node) (d : Declarations) :
    d.addFields s owner n = (n.childrenIn .declarator).foldl
      (fun e m => e.addDeclarator s owner (((n.child? .type).map s.textOf).getD "")
        (d.isInterface owner || (s.modifiersOf n).isFinal) m) d :=
  rfl

theorem addDeclarator_adds (ht : d.Declares owner t) (type : String) (isFinal : Bool) (n : Node) :
    Adds (s.declaratorOutline t type isFinal n) d (d.addDeclarator s owner type isFinal n) := by
  rw [Source.declaratorOutline, addDeclarator]
  cases n.child? .name with
  | none => exact .nothing d
  | some name =>
    have field := field_adds ht (s.textOf name) type isFinal (s.spanOf n)
    cases n.child? .value with
    | none => exact field.append (.nothing _)
    | some value => exact field.append (fieldBody_adds ht _ _ _ _ value)

theorem addFields_adds (ht : d.Declares owner t) (n : Node) : Adds (s.fieldsOutline t n) d (d.addFields s owner n) := by
  rw [Source.fieldsOutline, addFields_eq, ht.isInterface]
  generalize ((n.child? .type).map s.textOf).getD "" = type, (t.isInterface || (s.modifiersOf n).isFinal) = isFinal
  induction n.childrenIn .declarator generalizing d with
  | nil => exact .nothing d
  | cons m ms ih =>
    rw [List.map_cons, List.sum_cons, List.foldl_cons]
    have one := addDeclarator_adds (s := s) ht type isFinal m
    exact one.append (ih (one.declares ht))

/-! ## Methods -/

theorem addMethod_eq (s : Source) (owner : TypeId) (n : Node) (d : Declarations) :
    d.addMethod s owner n =
      match s.methodName? n with
      | none => d
      | some name =>
        let d' := d.pushMethod (s.methodHeader owner (d.isInterface owner) name n)
        if (n.child? .body).isSome then d'.addBody (.method ⟨d.methods.size⟩ n) else d' := by
  unfold addMethod Source.methodName?
  dsimp only
  cases (if n.kind == .methodDeclaration then (n.child? .name).map s.textOf else some constructorName) <;> rfl

theorem addMethod_adds (ht : d.Declares owner t) (n : Node) : Adds (s.methodOutline t n) d (d.addMethod s owner n) := by
  rw [addMethod_eq, Source.methodOutline, ht.isInterface]
  cases s.methodName? n with
  | none => exact .nothing d
  | some name =>
    obtain ⟨u, hu, hname⟩ := ht.typeAt?
    let m := s.methodHeader owner t.isInterface name n
    have header : Adds (0, 0, {⟨t.name, s.methodHeader ⟨0⟩ t.isInterface name n⟩}, 0) d (d.pushMethod m) := by
      rw [← hname]
      exact pushMethod_adds (m := m) hu rfl
    dsimp only
    split_ifs with hbody
    · refine header.append (addBody_adds fun fs hc => ⟨?_, ?_⟩)
      · change d.methods.size < (d.pushMethod m).methods.size
        simp [pushMethod]
      · have last : (d.pushMethod m).methods[d.methods.size]? = some m := by simp [pushMethod]
        have name : (d.pushMethod m).nameOf owner = t.name := by rw [nameOf_of_typeAt (header.typeAt? hu), hname]
        change bodyItem (d.pushMethod m) fs (.method ⟨d.methods.size⟩ n) = _
        rw [bodyItem, last, Option.getD_some, methodItem, show (d.pushMethod m).nameOf m.owner = t.name from name]
        rfl
    · exact header.append (.nothing _)

/-! ## Members -/

theorem block_adds (ht : d.Declares owner t) (n : Node) :
    Adds (0, 0, 0, {.block t.name n}) d (d.addBody (.block owner n)) := by
  obtain ⟨u, hu, hname⟩ := ht.typeAt?
  exact addBody_adds fun fs hc =>
    ⟨(Array.getElem?_eq_some_iff.1 hu).1, by rw [bodyItem, nameOf_of_typeAt hu, hname]⟩

theorem addMember_adds (ht : d.Declares owner t) (n : Node) : Adds (s.memberOutline t n) d (d.addMember s owner n) := by
  have constant : Adds (if (n.child? .arguments).isSome || (n.child? .body).isSome then (0, 0, 0, {.block t.name n}) else 0) d
      (if (n.child? .arguments).isSome || (n.child? .body).isSome then d.addBody (.block owner n) else d) := by
    split_ifs
    · exact block_adds ht n
    · exact .nothing d
  unfold Source.memberOutline addMember
  generalize n.kind = kind
  cases kind
  case fieldDeclaration | constantDeclaration => exact addFields_adds ht n
  case methodDeclaration | constructorDeclaration | compactConstructorDeclaration => exact addMethod_adds ht n
  case staticInitializer | block => exact block_adds ht n
  case enumConstant => exact constant
  all_goals exact .nothing d

/-! ## Types -/

theorem addComponents_adds (ht : d.Declares owner t) (n : Node) :
    Adds (s.componentsOutline t n) d (d.addComponents s owner n) := by
  rw [addComponents, Source.componentsOutline]
  cases n.child? .parameters with
  | none => exact .nothing d
  | some params =>
    dsimp only
    induction s.parametersOf params generalizing d with
    | nil => exact .nothing d
    | cons p ps ih =>
      rw [List.map_cons, List.sum_cons, List.foldl_cons]
      have one := field_adds ht p.name p.type true (s.spanOf params)
      exact one.append (ih (one.declares ht))

/-- how an owner is known: not at all at the top of a file, or by its id -/
def OwnerIs (d : Declarations) (owner : Option TypeId) (outer : Option TypeDecl) : Prop :=
  Option.Rel d.Declares owner outer

theorem OwnerIs.map {outer : Option TypeDecl} {id : Option TypeId} {β : Type} {f : TypeDecl → β} (h : d.OwnerIs id outer)
    (hf : ∀ u : TypeDecl, f { u with enclosing := none } = f u) : (id.bind d.typeAt?).map f = outer.map f := by
  cases h with
  | none => rfl
  | some h =>
    obtain ⟨u, hu, rfl⟩ := h
    rw [Option.bind_some, hu, Option.map_some, Option.map_some, hf]

theorem addType?_adds {names : NameTable} (hp : d.names.package = names.package) {id : Option TypeId}
    {outer : Option TypeDecl} (ho : d.OwnerIs id outer) {n name : Node} (hname : n.child? .name = some name) :
    ∃ id' d', d.addType? s id n = some (id', d') ∧ d'.Declares id' (s.typeHeader names outer n name) ∧
      Adds (s.headerOutline (s.typeHeader names outer n name) outer n) d d' := by
  let t := s.typeHeader names outer n name
  let u : TypeDecl := { t with enclosing := id }
  have binaryName : d.names.declaredName ((id.bind d.typeAt?).map (·.binaryName)) (s.textOf name) = t.binaryName := by
    rw [NameTable.declaredName_congr hp, ho.map fun _ => rfl]
    rfl
  have pushed : Adds ({⟨t, outer.map (·.name)⟩}, 0, 0, 0) d (d.pushType u) := by
    have item : d.typeItem u = ⟨t, outer.map (·.name)⟩ := by
      have names : id.map d.nameOf = outer.map (·.name) := by
        cases ho with
        | none => rfl
        | some h =>
          obtain ⟨w, hw, hwn⟩ := h.typeAt?
          rw [Option.map_some, Option.map_some, nameOf_of_typeAt hw, hwn]
      rw [typeItem, names]
      rfl
    rw [← item]
    refine pushType_adds (fun e he => ?_) rfl
    obtain rfl : id = some e := he
    cases ho with
    | some h =>
      obtain ⟨w, hw, -⟩ := h
      rw [hw, Option.isSome_some]
  have last : (d.pushType u).Declares ⟨d.types.size⟩ t := ⟨u, by simp [pushType, Declarations.typeAt?], rfl⟩
  refine ⟨⟨d.types.size⟩, if t.kind = .record then (d.pushType u).addComponents s ⟨d.types.size⟩ n else d.pushType u,
    ?_, ?_, ?_⟩
  · rw [addType?, hname, Option.map_some]
    dsimp only
    rw [binaryName]
    rfl
  · split_ifs
    · exact (addComponents_adds last n).declares last
    · exact last
  · rw [Source.headerOutline]
    refine pushed.append ?_
    split_ifs
    · exact addComponents_adds last n
    · exact .nothing _

theorem Adds.ownerIs {o : Outline} {d' : Declarations} (h : Adds o d d') {id : Option TypeId} {outer : Option TypeDecl}
    (ho : d.OwnerIs id outer) : d'.OwnerIs id outer := by
  cases ho with
  | none => exact .none
  | some ht => exact .some (h.declares ht)

theorem Adds.package {o : Outline} {d' : Declarations} (h : Adds o d d') : d'.names.package = d.names.package := by
  rw [h.names]

mutual

/-- **Collecting a node adds its outline**, whatever was collected before. -/
theorem collect_adds (s : Source) (names : NameTable) : ∀ (n : Node) (d : Declarations) (id : Option TypeId)
    (outer : Option TypeDecl), d.names.package = names.package → d.OwnerIs id outer →
      Adds (s.outlineOf names outer n) d (collect s id n d)
  | .mk kind role start stop children, d, id, outer, hp, ho => by
    rw [collect.eq_def, Source.outlineOf.eq_def]
    dsimp only
    by_cases htype : kind.isTypeDeclaration = true
    · rw [if_pos htype, if_pos htype]
      cases hname : (Node.mk kind role start stop children).child? .name with
      | none =>
        rw [addType?, hname]
        exact .nothing d
      | some name =>
        obtain ⟨id', d', hadd, hdecl, header⟩ := addType?_adds (s := s) hp ho hname
        rw [hadd]
        exact header.append (collectBody_adds s names children d' id' _ (header.package.trans hp) hdecl)
    · rw [if_neg htype, if_neg htype]
      cases ho with
      | none => exact .nothing d
      | some ht =>
        dsimp only
        split_ifs
        · exact collectAll_adds s names children d _ _ hp (.some ht)
        · exact addMember_adds ht _
termination_by structural n => n

theorem collectBody_adds (s : Source) (names : NameTable) : ∀ (ns : List Node) (d : Declarations) (id : TypeId)
    (t : TypeDecl), d.names.package = names.package → d.Declares id t →
      Adds (s.bodyOutline names t ns) d (collectBody s id ns d)
  | [], d, id, t, _, _ => .nothing d
  | .mk kind role start stop children :: rest, d, id, t, hp, ht => by
    rw [collectBody.eq_def, Source.bodyOutline.eq_def]
    dsimp only
    split_ifs
    · exact collectAll_adds s names children d _ _ hp (.some ht)
    · exact collectBody_adds s names rest d id t hp ht
termination_by structural ns => ns

theorem collectAll_adds (s : Source) (names : NameTable) : ∀ (ns : List Node) (d : Declarations) (id : Option TypeId)
    (outer : Option TypeDecl), d.names.package = names.package → d.OwnerIs id outer →
      Adds (s.outlineOfAll names outer ns) d (collectAll s id ns d)
  | [], d, id, outer, _, _ => .nothing d
  | n :: ns, d, id, outer, hp, ho => by
    have first := collect_adds s names n d id outer hp ho
    have others := collectAll_adds s names ns (collect s id n d) id outer (first.package.trans hp) (first.ownerIs ho)
    rw [collectAll, Source.outlineOfAll]
    exact first.append others
termination_by structural ns => ns

end

/-- what is collected from a tree tells the same in its tables as in its lists -/
theorem collectAll_coherent (s : Source) {names : NameTable} (hn : names.declared = []) (ns : List Node) :
    ∃ fs, (Declarations.collectAll s none ns (ofNames names)).Coherent fs := by
  have adds := collectAll_adds s names ns (ofNames names) none none rfl .none
  obtain ⟨fs, hc, -⟩ := adds.outline [] (ofNames_coherent hn)
  exact ⟨_, hc⟩

end Declarations

/-- the declarations of a tree, with the names that its package and imports make known -/
def Source.declarationsOf (s : Source) (root : Node) : Declarations :=
  .ofFile s (NameTable.ofImports (s.package? root) (s.imports root)) root

end CallLint
