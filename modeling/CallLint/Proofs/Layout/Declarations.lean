/-
Declarations of files whose trees mean the same node by node. They are collected side by side: each step adds the same to
both, with the same ids, so that only spans differ, and texts of types by what erasure takes away
(`Declarations.Abreast`). Once linked, the declarations match, and ids stand for themselves (`Abreast.link_matches`).
-/
import CallLint.Proofs.Correspondence.Bodies
import CallLint.Proofs.Rearranged.Collected
import CallLint.Proofs.Rearranged.Linked

namespace CallLint

/-- ids stand for themselves -/
def Correspondence.sameIds (spans : Span → Span → Prop) : Correspondence :=
  ⟨(· = ·), (· = ·), (· = ·), spans⟩

/-- the types are the same but for their spans and what erasure takes away from their superclasses -/
structure TypeDecl.WrittenLike (spans : Span → Span → Prop) (t t' : TypeDecl) : Prop where
  name : t.name = t'.name
  binaryName : t.binaryName = t'.binaryName
  kind : t.kind = t'.kind
  enclosing : t.enclosing = t'.enclosing
  superclass : t.superclass.map (TypeName.erase ·.toList) = t'.superclass.map (TypeName.erase ·.toList)
  superclassId : t.superclassId = t'.superclassId
  span : spans t.span t'.span

/-- the same was collected from both files, with the same ids -/
structure Declarations.Abreast (spans : Span → Span → Prop) (s s' : Source) (d d' : Declarations) : Prop where
  names : d.names = d'.names
  types : List.Forall₂ (TypeDecl.WrittenLike spans) d.types.toList d'.types.toList
  members : d.members = d'.members
  methods : List.Forall₂ (MethodDecl.Matches (.sameIds spans)) d.methods.toList d'.methods.toList
  fields : List.Forall₂ (VariableDecl.Matches (.sameIds spans)) d.fields.toList d'.fields.toList
  fieldTypes : List.Forall₂ (fun a b : String => TypeName.erase a.toList = TypeName.erase b.toList) d.fieldTypes.toList
    d'.fieldTypes.toList
  bodies : List.Forall₂ (Body.Alike (.sameIds spans) s s') d.bodies.toList d'.bodies.toList

/-- entries of arrays whose items are related one for one -/
theorem forall₂_getElem? {α β : Type} {r : α → β → Prop} {xs : Array α} {ys : Array β}
    (h : List.Forall₂ r xs.toList ys.toList) (i : Nat) : Option.Rel r xs[i]? ys[i]? := by
  have lists {as : List α} {bs : List β} (h : List.Forall₂ r as bs) (i : Nat) : Option.Rel r as[i]? bs[i]? := by
    induction h generalizing i with
    | nil => exact .none
    | cons hab _ ih =>
      cases i with
      | zero => exact .some hab
      | succ i => exact ih i
  rw [← Array.getElem?_toList, ← Array.getElem?_toList]
  exact lists h i

theorem optionRel_none {α β : Type} {r : α → β → Prop} {o : Option β} (h : Option.Rel r none o) : o = none := by
  cases h
  rfl

theorem forall₂_push {α β : Type} {r : α → β → Prop} {xs : Array α} {ys : Array β} {a : α} {b : β}
    (h : List.Forall₂ r xs.toList ys.toList) (hab : r a b) : List.Forall₂ r (xs.push a).toList (ys.push b).toList := by
  rw [Array.toList_push, Array.toList_push]
  exact List.rel_append h (.cons hab .nil)

theorem forall₂_size {α β : Type} {r : α → β → Prop} {xs : Array α} {ys : Array β}
    (h : List.Forall₂ r xs.toList ys.toList) : xs.size = ys.size := by
  simpa using h.length_eq

namespace Declarations

variable {spans : Span → Span → Prop} {s s' : Source} {d d' : Declarations} {n n' : Node} {owner : TypeId}

namespace Abreast

theorem typeAt? (h : d.Abreast spans s s' d') (id : TypeId) :
    Option.Rel (TypeDecl.WrittenLike spans) (d.typeAt? id) (d'.typeAt? id) :=
  forall₂_getElem? h.types id.index

theorem isInterface (h : d.Abreast spans s s' d') (id : TypeId) : d.isInterface id = d'.isInterface id := by
  rw [Declarations.isInterface, Declarations.isInterface]
  rcases optionRel_cases (h.typeAt? id) with ⟨ht, ht'⟩ | ⟨t, t', ht, ht', htt⟩
  · rw [ht, ht']
  · simp only [ht, ht', htt.kind]

/-! ## Steps -/

theorem addBody (h : d.Abreast spans s s' d') {b b' : Body} (hb : Body.Alike (.sameIds spans) s s' b b') :
    (d.addBody b).Abreast spans s s' (d'.addBody b') :=
  ⟨h.names, h.types, h.members, h.methods, h.fields, h.fieldTypes, forall₂_push h.bodies hb⟩

theorem addField (h : d.Abreast spans s s' d') (owner : TypeId) (name : String) {type type' : String} (isFinal : Bool)
    {span span' : Span} (ht : TypeName.erase type.toList = TypeName.erase type'.toList) (hs : spans span span') :
    (d.addField owner name type isFinal span).Abreast spans s s' (d'.addField owner name type' isFinal span') := by
  refine ⟨h.names, h.types, ?_, h.methods, forall₂_push h.fields ⟨rfl, rfl, rfl, rfl, .none, hs⟩,
    forall₂_push h.fieldTypes ht, h.bodies⟩
  rw [Declarations.addField, Declarations.addField, h.members, forall₂_size h.fields]

theorem pushMethod (h : d.Abreast spans s s' d') {m m' : MethodDecl} (hm : m.Matches (.sameIds spans) m') :
    (d.pushMethod m).Abreast spans s s' (d'.pushMethod m') := by
  refine ⟨h.names, h.types, ?_, forall₂_push h.methods hm, h.fields, h.fieldTypes, h.bodies⟩
  have owner : m.owner = m'.owner := hm.owner
  rw [Declarations.pushMethod, Declarations.pushMethod, h.members, forall₂_size h.methods, owner]

theorem pushType (h : d.Abreast spans s s' d') {t t' : TypeDecl} (ht : t.WrittenLike spans t') :
    (d.pushType t).Abreast spans s s' (d'.pushType t') := by
  refine ⟨?_, forall₂_push h.types ht, ?_, h.methods, h.fields, h.fieldTypes, h.bodies⟩
  · rw [Declarations.pushType, Declarations.pushType, h.names, ht.name, ht.binaryName]
  · rw [Declarations.pushType, Declarations.pushType, h.members]

/-! ## Members -/

theorem addDeclarator (h : d.Abreast spans s s' d') (owner : TypeId) {type type' : String} (isFinal : Bool)
    (ht : TypeName.erase type.toList = TypeName.erase type'.toList) (hn : n.Alike spans s s' n') :
    (d.addDeclarator s owner type isFinal n).Abreast spans s s' (d'.addDeclarator s' owner type' isFinal n') := by
  have text := hn.childText (r := .name) rfl
  rw [Declarations.addDeclarator, Declarations.addDeclarator]
  rcases optionRel_cases (hn.child? .name) with ⟨hp, hp'⟩ | ⟨p, p', hp, hp', -⟩
  · rw [hp, hp']
    exact h
  · rw [hp, hp', Option.map_some, Option.map_some, Option.some.injEq] at text
    rw [hp, hp']
    dsimp only
    rw [text]
    have added := h.addField owner (s'.textOf p') isFinal ht hn.span
    rcases optionRel_cases (hn.child? .value) with ⟨hv, hv'⟩ | ⟨v, v', hv, hv', hvv⟩
    · rw [hv, hv']
      exact added
    · rw [hv, hv']
      exact added.addBody (.field (congrArg VariableId.mk (forall₂_size h.fields)) rfl hvv)

theorem addFields (h : d.Abreast spans s s' d') (owner : TypeId) (hn : n.Alike spans s s' n') :
    (d.addFields s owner n).Abreast spans s s' (d'.addFields s' owner n') := by
  have type := Node.Alike.erase_getD hn.childType
  rw [addFields_eq, addFields_eq, h.isInterface, hn.modifiersOf]
  have declarators := hn.childrenIn .declarator
  generalize n.childrenIn .declarator = ms, n'.childrenIn .declarator = ms' at declarators
  generalize (d'.isInterface owner || (s'.modifiersOf n').isFinal) = isFinal
  induction declarators generalizing d d' with
  | nil => exact h
  | cons hm _ ih =>
    rw [List.foldl_cons, List.foldl_cons]
    exact ih (h.addDeclarator owner isFinal type hm)

theorem methodName? (hn : n.Alike spans s s' n') : s.methodName? n = s'.methodName? n' := by
  rw [Source.methodName?, Source.methodName?, hn.kind, hn.childText rfl]

theorem methodHeader (hn : n.Alike spans s s' n') (owner : TypeId) (isInterface : Bool) (name : String) :
    (s.methodHeader owner isInterface name n).Matches (.sameIds spans) (s'.methodHeader owner isInterface name n') := by
  have body : (n.child? .body).isSome = (n'.child? .body).isSome := by
    rw [← Option.not_isNone, ← Option.not_isNone, optionRel_isNone (hn.child? .body)]
  have nameSpan : spans (s.spanOf ((n.child? .name).getD n)) (s'.spanOf ((n'.child? .name).getD n')) := by
    rcases optionRel_cases (hn.child? .name) with ⟨hp, hp'⟩ | ⟨p, p', hp, hp', hpp⟩
    · rw [hp, hp']
      exact hn.span
    · rw [hp, hp']
      exact hpp.span
  have parameters : (s.methodHeader owner isInterface name n).parameterCount =
        (s'.methodHeader owner isInterface name n').parameterCount ∧
      (s.methodHeader owner isInterface name n).varargs = (s'.methodHeader owner isInterface name n').varargs := by
    rw [Source.methodHeader, Source.methodHeader]
    rcases optionRel_cases (hn.child? .parameters) with ⟨hp, hp'⟩ | ⟨p, p', hp, hp', hpp⟩
    · rw [hp, hp', hn.kind]
      exact ⟨rfl, rfl⟩
    · have ps := hpp.parametersOf
      have spread : (s.parametersOf p).map (·.isSpread) = (s'.parametersOf p').map (·.isSpread) := by
        rw [← List.forall₂_eq_eq_eq, List.forall₂_map_left_iff, List.forall₂_map_right_iff]
        exact ps.imp fun _ _ h => h.isSpread
      have any {qs : List Parameter} : qs.any (·.isSpread) = (qs.map (·.isSpread)).any id := by
        rw [List.any_map]
        rfl
      rw [hp, hp']
      dsimp only
      exact ⟨ps.length_eq, by rw [any, any, spread]⟩
  refine ⟨rfl, rfl, parameters.1, parameters.2, ?_, ?_, ?_, .none, nameSpan, hn.span⟩
  · rw [Source.methodHeader, Source.methodHeader, hn.modifiersOf]
  · rw [Source.methodHeader, Source.methodHeader, hn.modifiersOf, body]
  · rw [Source.methodHeader, Source.methodHeader, hn.modifiersOf]

theorem addMethod (h : d.Abreast spans s s' d') (owner : TypeId) (hn : n.Alike spans s s' n') :
    (d.addMethod s owner n).Abreast spans s s' (d'.addMethod s' owner n') := by
  have body : (n.child? .body).isSome = (n'.child? .body).isSome := by
    rw [← Option.not_isNone, ← Option.not_isNone, optionRel_isNone (hn.child? .body)]
  rw [addMethod_eq, addMethod_eq, methodName? hn, h.isInterface, body]
  cases s'.methodName? n' with
  | none => exact h
  | some name =>
    have header := h.pushMethod (methodHeader hn owner (d'.isInterface owner) name)
    dsimp only
    split_ifs
    · exact header.addBody (.method (congrArg MethodId.mk (forall₂_size h.methods)) hn)
    · exact header

theorem addMember (h : d.Abreast spans s s' d') (owner : TypeId) (hn : n.Alike spans s s' n') :
    (d.addMember s owner n).Abreast spans s s' (d'.addMember s' owner n') := by
  have some_eq (r : Role) : (n.child? r).isSome = (n'.child? r).isSome := by
    rw [← Option.not_isNone, ← Option.not_isNone, optionRel_isNone (hn.child? r)]
  have block : (d.addBody (.block owner n)).Abreast spans s s' (d'.addBody (.block owner n')) := h.addBody (.block rfl hn)
  have constant : (if (n.child? .arguments).isSome || (n.child? .body).isSome then d.addBody (.block owner n) else d).Abreast
      spans s s'
      (if (n'.child? .arguments).isSome || (n'.child? .body).isSome then d'.addBody (.block owner n') else d') := by
    rw [some_eq, some_eq]
    split_ifs
    · exact block
    · exact h
  unfold Declarations.addMember
  rw [hn.kind]
  generalize n'.kind = kind
  cases kind
  case fieldDeclaration | constantDeclaration => exact h.addFields owner hn
  case methodDeclaration | constructorDeclaration | compactConstructorDeclaration => exact h.addMethod owner hn
  case staticInitializer | block => exact block
  case enumConstant => exact constant
  all_goals exact h

/-! ## Types -/

theorem addComponents (h : d.Abreast spans s s' d') (owner : TypeId) (hn : n.Alike spans s s' n') :
    (d.addComponents s owner n).Abreast spans s s' (d'.addComponents s' owner n') := by
  rw [Declarations.addComponents, Declarations.addComponents]
  rcases optionRel_cases (hn.child? .parameters) with ⟨hp, hp'⟩ | ⟨p, p', hp, hp', hpp⟩
  · rw [hp, hp']
    exact h
  · rw [hp, hp']
    dsimp only
    have parameters := hpp.parametersOf
    generalize s.parametersOf p = ps, s'.parametersOf p' = ps' at parameters
    induction parameters generalizing d d' with
    | nil => exact h
    | cons hq _ ih =>
      rw [List.foldl_cons, List.foldl_cons, hq.name]
      exact ih (h.addField owner _ true hq.type hpp.span)

theorem superclassText? (hn : n.Alike spans s s' n') :
    (Declarations.superclassText? s n).map (TypeName.erase ·.toList) =
      (Declarations.superclassText? s' n').map (TypeName.erase ·.toList) := by
  rw [Declarations.superclassText?, Declarations.superclassText?]
  rcases optionRel_cases (hn.child? .superclass) with ⟨hc, hc'⟩ | ⟨c, c', hc, hc', hcc⟩
  · rw [hc, hc']
    rfl
  · have hrole : c.role = some .superclass := by simpa [Node.child?] using List.find?_some hc
    have text := hcc.reads.superclass hrole
    rw [hc, hc', Option.bind_some, Option.bind_some, Option.map_map, Option.map_map]
    exact text

theorem addType? (h : d.Abreast spans s s' d') (enclosing : Option TypeId) (hn : n.Alike spans s s' n') :
    Option.Rel (fun p p' => p.1 = p'.1 ∧ p.2.Abreast spans s s' p'.2) (d.addType? s enclosing n)
      (d'.addType? s' enclosing n') := by
  have text := hn.childText (r := .name) rfl
  have outer : (enclosing.bind d.typeAt?).map (·.binaryName) = (enclosing.bind d'.typeAt?).map (·.binaryName) := by
    cases enclosing with
    | none => rfl
    | some id => exact optionRel_eq.1 (optionRel_map (fun _ _ ht => TypeDecl.WrittenLike.binaryName ht) (h.typeAt? id))
  have kind : typeKindOf n = typeKindOf n' := by rw [typeKindOf, typeKindOf, hn.kind]
  have size := forall₂_size h.types
  rw [Declarations.addType?, Declarations.addType?]
  rcases optionRel_cases (hn.child? .name) with ⟨hp, hp'⟩ | ⟨p, p', hp, hp', -⟩
  · rw [hp, hp']
    exact .none
  · rw [hp, hp', Option.map_some, Option.map_some, Option.some.injEq] at text
    rw [hp, hp', Option.map_some, Option.map_some]
    refine .some ⟨congrArg TypeId.mk size, ?_⟩
    dsimp only
    rw [text, outer, h.names, kind, size]
    have like (name binaryName : String) (k : TypeKind) : TypeDecl.WrittenLike spans
        ⟨name, binaryName, k, enclosing, Declarations.superclassText? s n, none, s.spanOf n⟩
        ⟨name, binaryName, k, enclosing, Declarations.superclassText? s' n', none, s'.spanOf n'⟩ :=
      ⟨rfl, rfl, rfl, rfl, superclassText? hn, rfl, hn.span⟩
    have pushed := h.pushType (like (s'.textOf p') (d'.names.declaredName ((enclosing.bind d'.typeAt?).map (·.binaryName))
      (s'.textOf p')) (typeKindOf n'))
    rw [Declarations.pushType, Declarations.pushType, h.names] at pushed
    split_ifs
    · exact pushed.addComponents _ hn
    · exact pushed

end Abreast

/-! ## Trees -/

theorem collectBody_eq (s : Source) (owner : TypeId) (ns : List Node) (d : Declarations) :
    collectBody s owner ns d =
      ((ns.find? (·.role == some .body)).map fun body => collectAll s (some owner) body.children d).getD d := by
  induction ns with
  | nil => rfl
  | cons n ns ih =>
    obtain ⟨kind, role, start, stop, children⟩ := n
    rw [collectBody, List.find?_cons, Node.role]
    cases hrole : role == some .body with
    | true => rfl
    | false => exact ih

/-- what is collected of a type, and of a member -/
theorem collect_eq (s : Source) (owner : Option TypeId) (n : Node) (d : Declarations) :
    collect s owner n d =
      if n.kind.isTypeDeclaration then
        ((d.addType? s owner n).map fun (p : TypeId × Declarations) =>
          ((n.child? .body).map fun body => collectAll s (some p.1) body.children p.2).getD p.2).getD d
      else
        (owner.map fun id =>
          if n.kind == .enumBodyDeclarations then collectAll s (some id) n.children d else d.addMember s id n).getD d := by
  obtain ⟨kind, role, start, stop, children⟩ := n
  rw [collect.eq_def]
  change (if kind.isTypeDeclaration = true then _ else _) = if kind.isTypeDeclaration = true then _ else _
  by_cases hkind : kind.isTypeDeclaration = true
  · rw [if_pos hkind, if_pos hkind]
    cases hadd : d.addType? s owner (.mk kind role start stop children) with
    | none => rfl
    | some p => exact collectBody_eq s p.1 children p.2
  · rw [if_neg hkind, if_neg hkind]
    cases owner <;> rfl

/-- nothing is collected of a comment -/
theorem collect_comment (s : Source) (owner : Option TypeId) {n : Node} (hn : n.isComment = true) (d : Declarations) :
    collect s owner n d = d := by
  rw [Node.isComment] at hn
  rw [collect_eq]
  unfold addMember
  generalize n.kind = kind at hn
  cases owner <;> cases kind <;> first | rfl | exact absurd hn Bool.false_ne_true

theorem collectAll_code (s : Source) (owner : Option TypeId) (ns : List Node) (d : Declarations) :
    collectAll s owner ns d = collectAll s owner (codeNodes ns) d := by
  induction ns generalizing d with
  | nil => rfl
  | cons n ns ih =>
    rw [collectAll, codeNodes, List.filter_cons]
    cases hn : n.isComment with
    | true =>
      rw [collect_comment s owner hn, ih]
      rfl
    | false =>
      rw [Bool.not_false, if_pos rfl, collectAll, ih]
      rfl

theorem collectAll_abreast {owner : Option TypeId} {ns ns' : List Node}
    (hns : List.Forall₂ (fun m m' => ∀ {d d' : Declarations}, d.Abreast spans s s' d' →
      (collect s owner m d).Abreast spans s s' (collect s' owner m' d')) (codeNodes ns) (codeNodes ns'))
    (h : d.Abreast spans s s' d') : (collectAll s owner ns d).Abreast spans s s' (collectAll s' owner ns' d') := by
  rw [collectAll_code, collectAll_code s']
  generalize codeNodes ns = ms, codeNodes ns' = ms' at hns
  induction hns generalizing d d' with
  | nil => exact h
  | cons hm _ ih => exact ih (hm h)

/-- **The same is collected of nodes that mean the same.** -/
theorem collect_abreast {n n' : Node} (hn : n.Alike spans s s' n') (owner : Option TypeId) {d d' : Declarations}
    (h : d.Abreast spans s s' d') : (collect s owner n d).Abreast spans s s' (collect s' owner n' d') := by
  rw [collect_eq, collect_eq, hn.kind]
  split_ifs with htype henum
  · rcases optionRel_cases (h.addType? owner hn) with ⟨ha, ha'⟩ | ⟨⟨id, e⟩, ⟨id', e'⟩, ha, ha', rfl, he⟩
    · rw [ha, ha']
      exact h
    · rw [ha, ha', Option.map_some, Option.map_some, Option.getD_some, Option.getD_some]
      dsimp only
      rcases optionRel_cases (hn.child? .body) with ⟨hb, hb'⟩ | ⟨b, b', hb, hb', hbb⟩
      · rw [hb, hb']
        exact he
      · rw [hb, hb', Option.map_some, Option.map_some, Option.getD_some, Option.getD_some]
        have inside : sizeOf b < sizeOf n := sizeOf_child (List.mem_of_find?_eq_some hb)
        refine collectAll_abreast ((forall₂_with_mem hbb.codeChildren).imp fun c c' ⟨hc, _, hcc⟩ => ?_) he
        have smaller : sizeOf c < sizeOf n := (sizeOf_child (mem_codeNodes.1 hc).1).trans inside
        exact collect_abreast hcc (some id)
  · cases owner with
    | none => exact h
    | some id =>
      refine collectAll_abreast ((forall₂_with_mem hn.codeChildren).imp fun c c' ⟨hc, _, hcc⟩ => ?_) h
      have smaller : sizeOf c < sizeOf n := sizeOf_child (mem_codeNodes.1 hc).1
      exact collect_abreast hcc (some id)
  · cases owner with
    | none => exact h
    | some id => exact h.addMember id hn
termination_by sizeOf n

/-! ## Links -/

/-- ids of some declarations stand for themselves -/
def idsOf (d : Declarations) (spans : Span → Span → Prop) : Correspondence :=
  ⟨fun a b => a = b ∧ a.index < d.types.size, fun a b => a = b ∧ a.index < d.methods.size,
    fun a b => a = b ∧ a.index < d.fields.size, spans⟩

theorem typeNamed?_lt {name : String} {id : TypeId} (h : d.typeNamed? name = some id) : id.index < d.types.size := by
  obtain ⟨i, hi, rfl⟩ := Option.map_eq_some_iff.1 h
  exact (Array.findIdx?_eq_some_iff_getElem.1 hi).1

namespace Abreast

variable {fs : List OwnedField}

theorem typeNamed? (h : d.Abreast spans s s' d') (name : String) : d.typeNamed? name = d'.typeNamed? name := by
  have names : d.types.toList.map (·.binaryName) = d'.types.toList.map (·.binaryName) := by
    rw [← List.forall₂_eq_eq_eq, List.forall₂_map_left_iff, List.forall₂_map_right_iff]
    exact h.types.imp fun _ _ ht => ht.binaryName
  rw [typeNamed?_eq, typeNamed?_eq, names]

theorem linkType (h : d.Abreast spans s s' d') (hc : d.Coherent fs) (i : Nat) {t t' : TypeDecl} (hmem : t ∈ d.types.toList)
    (ht : t.WrittenLike spans t') : (d.linkType i t).Matches (d.idsOf spans) (d'.linkType i t') := by
  have enclosing : Option.Rel (d.idsOf spans).types t.enclosing t'.enclosing := by
    rw [← ht.enclosing]
    cases he : t.enclosing with
    | none => exact .none
    | some e => exact .some ⟨rfl, hc.enclosing t hmem e he⟩
  have superclass := ht.superclass
  rw [Declarations.linkType, Declarations.linkType]
  cases hs : t.superclass with
  | none =>
    have none' : t'.superclass = none := by simpa [hs] using superclass
    rw [none']
    refine ⟨ht.name, ht.binaryName, ht.kind, enclosing, by rw [hs, none'], ?_, ht.span⟩
    rw [← ht.superclassId, hc.unlinked t hmem]
    exact .none
  | some written =>
    obtain ⟨written', hs', herased⟩ : ∃ w', t'.superclass = some w' ∧ TypeName.erase w'.toList = TypeName.erase written.toList := by
      rw [hs] at superclass
      simpa using superclass.symm
    have resolved : d.names.resolveOrErase written = d'.names.resolveOrErase written' := by
      rw [h.names, NameTable.resolveOrErase_congr _ herased]
    rw [hs']
    refine ⟨ht.name, ht.binaryName, ht.kind, enclosing, congrArg some resolved, ?_, ht.span⟩
    dsimp only
    rw [resolved, h.typeNamed?]
    cases hf : (d'.typeNamed? (d'.names.resolveOrErase written')).filter (·.index != i) with
    | none => exact .none
    | some id =>
      have found := (Option.filter_eq_some_iff.1 hf).1
      rw [← h.typeNamed?] at found
      exact .some ⟨rfl, typeNamed?_lt found⟩

theorem types_link (h : d.Abreast spans s s' d') (hc : d.Coherent fs) :
    OneToOne (d.idsOf spans).types (TypeDecl.Matches (d.idsOf spans)) d.link.typeAt? d'.link.typeAt? where
  unique := ⟨fun _ _ _ h h' => h.1.trans h'.1.symm, fun _ _ _ h h' => h.1.symm.trans h'.1⟩
  related {id _} hr := by
    obtain ⟨rfl, hlt⟩ := hr
    rcases optionRel_cases (h.typeAt? id) with ⟨ht, -⟩ | ⟨t, t', ht, ht', htt⟩
    · exact absurd hlt (Nat.not_lt.2 (Array.getElem?_eq_none_iff.1 ht))
    · have hmem : t ∈ d.types.toList := List.mem_of_getElem? (typeAt?_iff.1 ht)
      exact ⟨_, _, typeAt?_link_eq_some.2 ⟨t, ht, rfl⟩, typeAt?_link_eq_some.2 ⟨t', ht', rfl⟩,
        h.linkType hc id.index hmem htt⟩
  left hu := by
    obtain ⟨t, ht, -⟩ := typeAt?_link_eq_some.1 hu
    exact ⟨_, rfl, (Array.getElem?_eq_some_iff.1 ht).1⟩
  right hu := by
    obtain ⟨t, ht, -⟩ := typeAt?_link_eq_some.1 hu
    exact ⟨_, rfl, (forall₂_size h.types).symm ▸ (Array.getElem?_eq_some_iff.1 ht).1⟩

theorem method (h : d.Abreast spans s s' d') (id : MethodId) :
    Option.Rel (MethodDecl.Matches (.sameIds spans)) d.methods[id.index]? d'.methods[id.index]? :=
  forall₂_getElem? h.methods id.index

theorem methods_link (h : d.Abreast spans s s' d') (hc : d.Coherent fs) :
    OneToOne (d.idsOf spans).methods (MethodDecl.Matches (d.idsOf spans)) (fun id => d.methods[id.index]?)
      fun id => d'.methods[id.index]? where
  unique := ⟨fun _ _ _ h h' => h.1.trans h'.1.symm, fun _ _ _ h h' => h.1.symm.trans h'.1⟩
  related {id _} hr := by
    obtain ⟨rfl, hlt⟩ := hr
    rcases optionRel_cases (h.method id) with ⟨hm, -⟩ | ⟨m, m', hm, hm', hmm⟩
    · exact absurd hlt (Nat.not_lt.2 (Array.getElem?_eq_none_iff.1 hm))
    · have hmem : m ∈ d.methods.toList := List.mem_of_getElem? (by rw [Array.getElem?_toList, hm])
      have body : Option.Rel (List.Forall₂ (Expr.Matches (d.idsOf spans))) m.body m'.body := by
        have none : m.body = none := hc.withoutCode m hmem
        have same := hmm.body
        rw [none] at same
        rw [none, optionRel_none same]
        exact .none
      exact ⟨m, m', hm, hm', hmm.name, ⟨hmm.owner, hc.methodOwner m hmem⟩, hmm.parameterCount, hmm.varargs, hmm.isPublic,
        hmm.isAbstract, hmm.annotations, body, hmm.nameSpan, hmm.span⟩
  left hm := ⟨_, rfl, (Array.getElem?_eq_some_iff.1 hm).1⟩
  right hm := ⟨_, rfl, (forall₂_size h.methods).symm ▸ (Array.getElem?_eq_some_iff.1 hm).1⟩

theorem fields_link (h : d.Abreast spans s s' d') (hc : d.Coherent fs) :
    OneToOne (d.idsOf spans).vars (VariableDecl.Matches (d.idsOf spans)) (fun id => d.link.fields[id.index]?)
      fun id => d'.link.fields[id.index]? := by
  have entry (e : Declarations) (i : Nat) : e.link.fields[i]? =
      e.fields[i]?.map fun v => { v with declaredType := e.fieldTypes[i]?.bind e.names.resolve? } := by
    rw [link, Array.getElem?_mapIdx]
  have size (e : Declarations) : e.link.fields.size = e.fields.size := by rw [link, Array.size_mapIdx]
  refine ⟨⟨fun _ _ _ h h' => h.1.trans h'.1.symm, fun _ _ _ h h' => h.1.symm.trans h'.1⟩, ?_, ?_, ?_⟩
  · rintro id _ ⟨rfl, hlt⟩
    rcases optionRel_cases (forall₂_getElem? h.fields id.index) with ⟨hv, -⟩ | ⟨v, v', hv, hv', hvv⟩
    · exact absurd hlt (Nat.not_lt.2 (Array.getElem?_eq_none_iff.1 hv))
    · have type : d.fieldTypes[id.index]?.bind d.names.resolve? = d'.fieldTypes[id.index]?.bind d'.names.resolve? := by
        rw [h.names]
        rcases optionRel_cases (forall₂_getElem? h.fieldTypes id.index) with ⟨ht, ht'⟩ | ⟨t, t', ht, ht', htt⟩
        · rw [ht, ht']
        · rw [ht, ht', Option.bind_some, Option.bind_some, NameTable.resolve?_congr _ htt]
      have initializer : Option.Rel (Expr.Matches (d.idsOf spans)) v.initializer v'.initializer := by
        have none : v.initializer = none := by
          have hmem : v ∈ d.fields.toList := List.mem_of_getElem? (by rw [Array.getElem?_toList, hv])
          rw [hc.fields] at hmem
          obtain ⟨f, hf, rfl⟩ := List.mem_map.1 hmem
          exact hc.uninitialized f hf
        have same := hvv.initializer
        rw [none] at same
        rw [none, optionRel_none same]
        exact .none
      have left := entry d id.index
      have right := entry d' id.index
      rw [hv, Option.map_some] at left
      rw [hv', Option.map_some] at right
      exact ⟨_, _, left, right, hvv.name, hvv.kind, type, hvv.isFinal, initializer, hvv.span⟩
  · intro id v hv
    exact ⟨id, rfl, size d ▸ (Array.getElem?_eq_some_iff.1 hv).1⟩
  · intro id v hv
    exact ⟨id, rfl, (forall₂_size h.fields).symm ▸ size d' ▸ (Array.getElem?_eq_some_iff.1 hv).1⟩

theorem ownMethod? (h : d.Abreast spans s s' d') (t : TypeId) (name : String) (arguments : Nat) :
    d.ownMethod? t name arguments = d'.ownMethod? t name arguments := by
  rw [Declarations.ownMethod?, Declarations.ownMethod?, membersOf, membersOf, h.members]
  refine List.find?_congr fun m _ => ?_
  rcases optionRel_cases (h.method m) with ⟨hm, hm'⟩ | ⟨a, a', hm, hm', haa⟩
  · rw [hm, hm']
  · rw [hm, hm']
    simp only [MethodDecl.acceptsArity, haa.name, haa.varargs, haa.parameterCount]

theorem bodies_link (h : d.Abreast spans s s' d') (hc : d.Coherent fs) :
    List.Forall₂ (Body.Alike (d.idsOf spans) s s') d.bodies.toList d'.bodies.toList := by
  have fields : d.fields.size = fs.length := by rw [← Array.length_toList, hc.fields, List.length_map]
  refine (forall₂_with_mem h.bodies).imp fun b b' ⟨hb, _, halike⟩ => ?_
  have within := hc.bodies b hb
  cases halike with
  | method hid hn => exact .method ⟨hid, within⟩ hn
  | field hid howner hn =>
    obtain ⟨f, hf, rfl⟩ := within
    exact .field ⟨hid, fields ▸ (List.getElem?_eq_some_iff.1 hf).1⟩
      ⟨howner, hc.fieldOwner f (List.mem_of_getElem? hf)⟩ hn
  | block howner hn => exact .block ⟨howner, within⟩ hn

/-- **Declarations that were collected side by side match once they are linked.** -/
theorem link_matches (h : d.Abreast spans s s' d') (hc : d.Coherent fs) :
    Declarations.Matches (d.idsOf spans) s s' d.link d'.link where
  resolve written := congrArg (NameTable.resolve? · written) h.names
  staticOwner member := congrArg (NameTable.staticOwner? · member) h.names
  types := h.types_link hc
  typeNamed name := by
    rw [typeNamed?_link_eq, typeNamed?_link_eq, h.typeNamed?]
    cases hf : d'.typeNamed? name with
    | none => exact .none
    | some id => exact .some ⟨rfl, typeNamed?_lt ((h.typeNamed? name).trans hf)⟩
  field {t _} ht name := by
    obtain ⟨rfl, -⟩ := ht
    have same : (d.link.membersOf t).fields.lookup name = (d'.link.membersOf t).fields.lookup name := by
      rw [membersOf, membersOf, link, link, h.members]
    rw [← same]
    cases hl : (d.link.membersOf t).fields.lookup name with
    | none => exact .none
    | some id =>
      obtain ⟨l₁, l₂, hlist, -⟩ := List.lookup_eq_some_iff.1 hl
      have there : (name, id) ∈ (d.membersOf t).fields := by
        change (name, id) ∈ (d.link.membersOf t).fields
        simp [hlist]
      obtain ⟨f, hf, -⟩ := (hc.fieldMembers t name id).1 there
      have size : d.fields.size = fs.length := by rw [← Array.length_toList, hc.fields, List.length_map]
      exact .some ⟨rfl, size ▸ (List.getElem?_eq_some_iff.1 hf).1⟩
  method {t _} ht name arguments := by
    obtain ⟨rfl, -⟩ := ht
    change Option.Rel _ (d.ownMethod? t name arguments) (d'.ownMethod? t name arguments)
    rw [← h.ownMethod?]
    cases hf : d.ownMethod? t name arguments with
    | none => exact .none
    | some id =>
      obtain ⟨m, hm, -⟩ := (hc.methodMembers t id).1 (List.mem_of_find?_eq_some hf)
      exact .some ⟨rfl, (Array.getElem?_eq_some_iff.1 hm).1⟩
  methods := h.methods_link hc
  fields := h.fields_link hc
  bodies := .of_forall₂ (h.bodies_link hc)

end Abreast

end Declarations

end CallLint
