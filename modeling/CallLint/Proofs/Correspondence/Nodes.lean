/-
Nodes of two files that mean the same. Alike nodes are of one kind and role, stand at corresponding spans, and their
children are alike but for comments; the texts that are read of them are the same, types up to what erasure takes away.
What declarations and lowering look up in alike nodes is then alike: children by role, modifiers, parameters, names.
-/
import CallLint.Proofs.Correspondence.Relations
import CallLint.Proofs.Grammar.Form
import CallLint.Source.Scope

namespace CallLint

/-! ## Comments left out -/

/-- what is no comment is found among the nodes without comments -/
theorem find?_code {p : Node → Bool} (hp : ∀ c : Node, c.isComment = true → p c = false) (ns : List Node) :
    ns.find? p = (codeNodes ns).find? p := by
  rw [codeNodes, List.find?_filter]
  refine List.find?_congr fun c _ => ?_
  cases hcom : c.isComment with
  | true => simp [hp c hcom]
  | false => simp

/-- what is read of nodes other than comments is read of the nodes without comments -/
theorem filterMap_code {β : Type} {f : Node → Option β} (hf : ∀ c : Node, c.isComment = true → f c = none)
    (ns : List Node) : ns.filterMap f = (codeNodes ns).filterMap f := by
  rw [codeNodes, List.filterMap_filter]
  refine List.filterMap_congr fun c _ => ?_
  cases hcom : c.isComment with
  | true => simp [hf c hcom]
  | false => simp

theorem Node.kind_ne_of_isComment {c : Node} (hc : c.isComment = true) {k : NodeKind} (hk : k.isComment = false) :
    c.kind ≠ k := by
  rintro rfl
  rw [Node.isComment, hk] at hc
  exact Bool.false_ne_true hc

/-! ## Texts that are read -/

namespace NodeKind

/-- kinds of nodes whose own text is read as it is -/
def isRead : NodeKind → Bool
  | .identifier | .scopedIdentifier | .characterLiteral | .decimalIntegerLiteral | .hexIntegerLiteral
  | .octalIntegerLiteral | .binaryIntegerLiteral | .decimalFloatingPointLiteral | .hexFloatingPointLiteral => true
  | _ => false

end NodeKind

/-- roles in which the text of a node is read as it is -/
def Role.isRead : Role → Bool
  | .name | .field | .operator | .key => true
  | _ => false

/-- the dotted name in the text of a type -/
def Source.erasedText (s : Source) (n : Node) : List Char :=
  TypeName.erase (s.textOf n).toList

namespace Node

/-- the type of a parameter that takes any number of arguments -/
def spreadType? (n : Node) : Option Node :=
  n.namedChildren.find? fun c => c.kind != .modifiers && c.kind != .variableDeclarator

/-- what stands for the superclass -/
def superclassChild? (n : Node) : Option Node :=
  n.children.find? (·.kind.isNamed)

/-- what is read of two nodes is the same -/
structure ReadsAlike (s s' : Source) (n n' : Node) : Prop where
  text : n.kind.isRead = true ∨ n.role.any Role.isRead = true → s.textOf n = s'.textOf n'
  type : n.role = some .type → s.erasedText n = s'.erasedText n'
  string : n.kind = .stringLiteral → Literal.ofStringText? (s.textOf n) = Literal.ofStringText? (s'.textOf n')
  inferred : n.kind = .inferredParameters → n.namedChildren.map s.textOf = n'.namedChildren.map s'.textOf
  spread : n.kind = .spreadParameter → n.spreadType?.map s.erasedText = n'.spreadType?.map s'.erasedText
  superclass : n.role = some .superclass → n.superclassChild?.map s.erasedText = n'.superclassChild?.map s'.erasedText

/-- comments among the children play no role and have no children -/
def PlainComments (n : Node) : Prop :=
  ∀ c ∈ n.children, c.isComment = true → c.role = none ∧ c.children = []

/-- **Nodes that mean the same** in two files -/
inductive Alike (spans : Span → Span → Prop) (s s' : Source) : Node → Node → Prop where
  | mk {n n' : Node} : n.kind = n'.kind → n.role = n'.role → spans (s.spanOf n) (s'.spanOf n') →
    n.ReadsAlike s s' n' → n.PlainComments → n'.PlainComments →
    List.Forall₂ (Alike spans s s') (codeNodes n.children) (codeNodes n'.children) → Alike spans s s' n n'

theorem Shaped.plainComments {n : Node} (h : n.Shaped) : n.PlainComments :=
  fun _ hc hcom => ⟨(h.child hc).comment_role hcom, (h.child hc).comment_children hcom⟩

theorem namedChildren_eq (n : Node) : n.namedChildren = (codeNodes n.children).filter (·.kind.isNamed) := by
  rw [namedChildren, codeNodes, List.filter_filter]

theorem PlainComments.child? {n : Node} (h : n.PlainComments) (r : Role) :
    n.child? r = (codeNodes n.children).find? (·.role == some r) := by
  rw [Node.child?, codeNodes, List.find?_filter]
  refine List.find?_congr fun c hc => ?_
  cases hcom : c.isComment with
  | true => simp [(h c hc hcom).1]
  | false => simp [Bool.beq_eq_decide_eq]

theorem PlainComments.childrenIn {n : Node} (h : n.PlainComments) (r : Role) :
    n.childrenIn r = (codeNodes n.children).filter (·.role == some r) := by
  rw [Node.childrenIn, codeNodes, List.filter_filter]
  refine List.filter_congr fun c hc => ?_
  cases hcom : c.isComment with
  | true => simp [(h c hc hcom).1]
  | false => simp

theorem childOfKind?_eq (n : Node) {k : NodeKind} (hk : k.isComment = false) :
    n.childOfKind? k = (codeNodes n.children).find? (·.kind == k) :=
  find?_code (fun _ hc => beq_eq_false_iff_ne.2 (kind_ne_of_isComment hc hk)) n.children

end Node

/-! ## What is found in alike nodes -/

namespace Node.Alike

variable {spans : Span → Span → Prop} {s s' : Source} {n n' : Node}

theorem kind (h : n.Alike spans s s' n') : n.kind = n'.kind := by
  cases h
  assumption

theorem role (h : n.Alike spans s s' n') : n.role = n'.role := by
  cases h
  assumption

theorem span (h : n.Alike spans s s' n') : spans (s.spanOf n) (s'.spanOf n') := by
  cases h
  assumption

theorem reads (h : n.Alike spans s s' n') : n.ReadsAlike s s' n' := by
  cases h
  assumption

theorem plain (h : n.Alike spans s s' n') : n.PlainComments ∧ n'.PlainComments := by
  cases h
  exact ⟨by assumption, by assumption⟩

theorem codeChildren (h : n.Alike spans s s' n') :
    List.Forall₂ (Alike spans s s') (codeNodes n.children) (codeNodes n'.children) := by
  cases h
  assumption

theorem namedChildren (h : n.Alike spans s s' n') : List.Forall₂ (Alike spans s s') n.namedChildren n'.namedChildren := by
  rw [namedChildren_eq, namedChildren_eq]
  exact List.rel_filter (fun c c' hc => by simp [hc.kind]) h.codeChildren

theorem child? (h : n.Alike spans s s' n') (r : Role) : Option.Rel (Alike spans s s') (n.child? r) (n'.child? r) := by
  rw [h.plain.1.child?, h.plain.2.child?]
  exact forall₂_find? (fun c c' hc => by rw [hc.role]) h.codeChildren

theorem childrenIn (h : n.Alike spans s s' n') (r : Role) :
    List.Forall₂ (Alike spans s s') (n.childrenIn r) (n'.childrenIn r) := by
  rw [h.plain.1.childrenIn, h.plain.2.childrenIn]
  exact List.rel_filter (fun c c' hc => by simp [hc.role]) h.codeChildren

theorem childOfKind? (h : n.Alike spans s s' n') {k : NodeKind} (hk : k.isComment = false) :
    Option.Rel (Alike spans s s') (n.childOfKind? k) (n'.childOfKind? k) := by
  rw [childOfKind?_eq n hk, childOfKind?_eq n' hk]
  exact forall₂_find? (fun c c' hc => by rw [hc.kind]) h.codeChildren

/-- nodes of a file mean the same as themselves -/
theorem refl (hspans : ∀ a, spans a a) {n : Node} (h : n.Shaped) : n.Alike spans s s n := by
  induction h with
  | @mk kind role start stop children w hr ha hw hc ih =>
    have shaped : (Node.mk kind role start stop children).Shaped := .mk hr ha hw hc
    refine .mk rfl rfl (hspans _) ⟨fun _ => rfl, fun _ => rfl, fun _ => rfl, fun _ => rfl, fun _ => rfl, fun _ => rfl⟩
      shaped.plainComments shaped.plainComments (List.forall₂_same.2 fun c hmem => ih c (mem_codeNodes.1 hmem).1)

/-! ## Names and texts -/

/-- the child in a role whose text is read -/
theorem childText (h : n.Alike spans s s' n') {r : Role} (hr : r.isRead = true) :
    (n.child? r).map s.textOf = (n'.child? r).map s'.textOf := by
  rcases optionRel_cases (h.child? r) with ⟨hc, hc'⟩ | ⟨c, c', hc, hc', hcc⟩
  · rw [hc, hc']
    rfl
  · have hrole : c.role = some r := by simpa [Node.child?] using List.find?_some hc
    rw [hc, hc', Option.map_some, Option.map_some, hcc.reads.text (Or.inr (by simp [hrole, hr]))]

/-- the type that is stated in a node -/
theorem childType (h : n.Alike spans s s' n') : (n.child? .type).map s.erasedText = (n'.child? .type).map s'.erasedText := by
  rcases optionRel_cases (h.child? .type) with ⟨hc, hc'⟩ | ⟨c, c', hc, hc', hcc⟩
  · rw [hc, hc']
    rfl
  · have hrole : c.role = some .type := by simpa [Node.child?] using List.find?_some hc
    rw [hc, hc', Option.map_some, Option.map_some, hcc.reads.type hrole]

/-! ## Modifiers and parameters -/

theorem elementName (h : n.Alike spans s s' n') : s.elementName n = s'.elementName n' := by
  rw [Source.elementName, Source.elementName, h.kind, h.childText rfl]

theorem annotationOf? (h : n.Alike spans s s' n') : s.annotationOf? n = s'.annotationOf? n' := by
  have elements : ((n.child? .arguments).map fun args => args.namedChildren.filterMap s.elementName) =
      (n'.child? .arguments).map fun args => args.namedChildren.filterMap s'.elementName := by
    refine optionRel_eq.1 (optionRel_map (fun a a' ha => ?_) (h.child? .arguments))
    have names := List.rel_filterMap (P := (· = ·)) (fun c c' hc => optionRel_eq.2 (elementName hc)) ha.namedChildren
    rwa [List.forall₂_eq_eq_eq] at names
  have name := h.childText (r := .name) rfl
  rw [Source.annotationOf?, Source.annotationOf?, h.kind, elements]
  rcases optionRel_cases (h.child? .name) with ⟨hc, hc'⟩ | ⟨c, c', hc, hc', -⟩
  · rw [hc, hc']
    rfl
  · rw [hc, hc', Option.map_some, Option.map_some, Option.some.injEq] at name
    rw [hc, hc', Option.map_some, Option.map_some, name]

/-- comments are no annotations -/
theorem annotationOf?_comment (s : Source) {c : Node} (hc : c.isComment = true) : s.annotationOf? c = none := by
  have marker := kind_ne_of_isComment hc (k := .annotationMarker) rfl
  have arguments := kind_ne_of_isComment hc (k := .annotationWithArguments) rfl
  rw [Source.annotationOf?, if_neg (by simp [marker, arguments])]

theorem modifiersOf (h : n.Alike spans s s' n') : s.modifiersOf n = s'.modifiersOf n' := by
  rw [Source.modifiersOf, Source.modifiersOf]
  rcases optionRel_cases (h.childOfKind? (k := .modifiers) rfl) with ⟨hm, hm'⟩ | ⟨m, m', hm, hm', hmm⟩
  · rw [hm, hm']
  · have has {k : NodeKind} (hk : k.isComment = false) : (m.childOfKind? k).isSome = (m'.childOfKind? k).isSome := by
      rcases optionRel_cases (hmm.childOfKind? hk) with ⟨hc, hc'⟩ | ⟨c, c', hc, hc', -⟩ <;> rw [hc, hc']
      rfl
    have annotations : m.children.filterMap s.annotationOf? = m'.children.filterMap s'.annotationOf? := by
      rw [filterMap_code fun _ => annotationOf?_comment s, filterMap_code fun _ => annotationOf?_comment s']
      have same := List.rel_filterMap (P := (· = ·)) (fun c c' hc => optionRel_eq.2 (annotationOf? hc)) hmm.codeChildren
      rwa [List.forall₂_eq_eq_eq] at same
    rw [hm, hm']
    simp only [has (k := .finalKeyword) rfl, has (k := .publicKeyword) rfl, has (k := .abstractKeyword) rfl, annotations]

end Node.Alike

/-- parameters that are the same but for what erasure takes away from their types -/
structure Parameter.Alike (p p' : Parameter) : Prop where
  name : p.name = p'.name
  type : TypeName.erase p.type.toList = TypeName.erase p'.type.toList
  isFinal : p.isFinal = p'.isFinal
  isSpread : p.isSpread = p'.isSpread

namespace Node.Alike

variable {spans : Span → Span → Prop} {s s' : Source} {n n' : Node}

/-- a type that is left out is the empty text -/
theorem erase_getD {o o' : Option Node} (h : o.map s.erasedText = o'.map s'.erasedText) :
    TypeName.erase ((o.map s.textOf).getD "").toList = TypeName.erase ((o'.map s'.textOf).getD "").toList := by
  cases o <;> cases o'
  · rfl
  · simp at h
  · simp at h
  · simpa [Source.erasedText] using h

theorem parameterOf? (h : n.Alike spans s s' n') : Option.Rel Parameter.Alike (s.parameterOf? n) (s'.parameterOf? n') := by
  rw [Source.parameterOf?, Source.parameterOf?, h.kind, h.modifiersOf]
  dsimp only
  split_ifs with hformal hspread
  · have name := h.childText (r := .name) rfl
    rcases optionRel_cases (h.child? .name) with ⟨hc, hc'⟩ | ⟨c, c', hc, hc', -⟩
    · rw [hc, hc']
      exact .none
    · rw [hc, hc', Option.map_some, Option.map_some, Option.some.injEq] at name
      rw [hc, hc']
      exact .some ⟨name, erase_getD h.childType, rfl, rfl⟩
  · have hkind : n.kind = .spreadParameter := by rw [h.kind]; simpa using hspread
    rcases optionRel_cases (h.childOfKind? (k := .variableDeclarator) rfl) with ⟨hd, hd'⟩ | ⟨d, d', hd, hd', hdd⟩
    · rw [hd, hd']
      exact .none
    · rw [hd, hd', Option.bind_some, Option.bind_some]
      have name := hdd.childText (r := .name) rfl
      rcases optionRel_cases (hdd.child? .name) with ⟨hc, hc'⟩ | ⟨c, c', hc, hc', -⟩
      · rw [hc, hc']
        exact .none
      · rw [hc, hc', Option.map_some, Option.map_some, Option.some.injEq] at name
        rw [hc, hc']
        exact .some ⟨name, erase_getD (h.reads.spread hkind), rfl, rfl⟩
  · exact .none

theorem parametersOf (h : n.Alike spans s s' n') :
    List.Forall₂ Parameter.Alike (s.parametersOf n) (s'.parametersOf n') :=
  List.rel_filterMap (fun _ _ hc => parameterOf? hc) h.namedChildren

end Node.Alike

/-! ## Types by their erased text -/

theorem NameTable.resolve?_congr (t : NameTable) {a b : String} (h : TypeName.erase a.toList = TypeName.erase b.toList) :
    t.resolve? a = t.resolve? b := by
  rw [resolve?, resolve?, h]

theorem NameTable.resolveOrErase_congr (t : NameTable) {a b : String}
    (h : TypeName.erase a.toList = TypeName.erase b.toList) : t.resolveOrErase a = t.resolveOrErase b := by
  rw [resolveOrErase, resolveOrErase, t.resolve?_congr h, h]

/-! ## Chains of names -/

theorem Node.unparenthesized_eq (n : Node) :
    n.unparenthesized =
      if n.kind == .parenthesizedExpression then (n.namedChildren.head?.map Node.unparenthesized).getD n else n := by
  have inside (ns : List Node) : Node.unparenthesized.inside ns =
      ((ns.filter fun c => c.kind.isNamed && !c.isComment).head?).map Node.unparenthesized := by
    induction ns with
    | nil => rfl
    | cons c ns ih =>
      rw [Node.unparenthesized.inside, List.filter_cons]
      split_ifs with hc
      · rfl
      · exact ih
  obtain ⟨kind, role, start, stop, children⟩ := n
  rw [Node.unparenthesized, inside]
  rfl

theorem Source.nameChain?_eq (s : Source) (n : Node) :
    s.nameChain? n =
      match n.kind with
      | .identifier => some (s.textOf n)
      | .fieldAccess =>
        match (n.child? .object).bind s.nameChain?, (n.child? .field).map s.textOf with
        | some object, some field => some (object ++ "." ++ field)
        | _, _ => none
      | _ => none := by
  have ofObject (ns : List Node) :
      Source.nameChain?.ofObject s ns = (ns.find? (·.role == some .object)).bind s.nameChain? := by
    induction ns with
    | nil => rfl
    | cons c ns ih =>
      rw [Source.nameChain?.ofObject, List.find?_cons]
      cases hc : c.role == some .object with
      | true => simp
      | false => simpa using ih
  obtain ⟨kind, role, start, stop, children⟩ := n
  rw [Source.nameChain?.eq_def]
  simp only [ofObject]
  cases kind with
  | fieldAccess =>
    have object : (Node.mk .fieldAccess role start stop children).child? .object =
        children.find? (·.role == some .object) := rfl
    dsimp only [Node.kind]
    rw [object]
    cases (children.find? (·.role == some .object)).bind s.nameChain? <;>
      cases (Node.mk .fieldAccess role start stop children).child? .field <;> rfl
  | _ => rfl

theorem sizeOf_child {n c : Node} (h : c ∈ n.children) : sizeOf c < sizeOf n := by
  obtain ⟨kind, role, start, stop, children⟩ := n
  have := List.sizeOf_lt_of_mem (show c ∈ children from h)
  simp only [Node.mk.sizeOf_spec]
  omega

namespace Node.Alike

variable {spans : Span → Span → Prop} {s s' : Source}

theorem unparenthesized {n n' : Node} (h : n.Alike spans s s' n') :
    n.unparenthesized.Alike spans s s' n'.unparenthesized := by
  rw [unparenthesized_eq, unparenthesized_eq n', h.kind]
  split_ifs
  · rcases optionRel_cases (forall₂_head? h.namedChildren) with ⟨hc, hc'⟩ | ⟨c, c', hc, hc', hcc⟩
    · rw [hc, hc']
      exact h
    · have smaller : sizeOf c < sizeOf n := sizeOf_child (List.mem_of_mem_filter (List.mem_of_head? hc))
      rw [hc, hc']
      exact unparenthesized hcc
  · exact h
termination_by sizeOf n

theorem nameChain? {n n' : Node} (h : n.Alike spans s s' n') : s.nameChain? n = s'.nameChain? n' := by
  rw [Source.nameChain?_eq, Source.nameChain?_eq, h.kind]
  split
  · rename_i hk
    rw [h.reads.text (Or.inl (by rw [h.kind, hk]; rfl))]
  · have object : (n.child? .object).bind s.nameChain? = (n'.child? .object).bind s'.nameChain? := by
      rcases optionRel_cases (h.child? .object) with ⟨hc, hc'⟩ | ⟨c, c', hc, hc', hcc⟩
      · rw [hc, hc']
        rfl
      · have smaller : sizeOf c < sizeOf n := sizeOf_child (List.mem_of_find?_eq_some hc)
        rw [hc, hc', Option.bind_some, Option.bind_some, nameChain? hcc]
    rw [object, h.childText rfl]
  · rfl
termination_by sizeOf n

end Node.Alike

end CallLint
