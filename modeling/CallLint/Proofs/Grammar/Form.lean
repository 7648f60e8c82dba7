/-
Which children the nodes of a kind have, as far as calls are concerned. A node is calm when its kind holds no calls
outside annotations: names, types, modifiers, tokens. A word describes a sequence of nodes by their roles and by whether
they may hold calls; `NodeKind.allows` says which words may stand under a node of a kind, and a node is `Shaped` when
this holds of it and of all nodes in it.

What lowering needs of a node is its `Form`: some children are picked by their slots, which come in a fixed order and at
most once; the other children are calm or stand in a slot that is named.
-/
import CallLint.Source.Node
import Mathlib.Tactic

namespace CallLint

/-! ## Kinds of nodes by what they hold -/

/-- what may lie in a node -/
inductive Load where
  /-- no calls outside annotations -/
  | calm
  /-- the initializer of one variable -/
  | declarator
  /-- the members of a class -/
  | members
  /-- a call of another constructor, and what follows it -/
  | constructor
  /-- such a call itself -/
  | delegation
  | busy
deriving DecidableEq, Repr

/-- whether what a node of the second load may hold can be held by one of the first -/
def Load.covers (a b : Load) : Bool :=
  a == b || (a == .busy && b == .calm)

namespace NodeKind

/-- modifiers and annotations; calls in them are not code -/
def isNote : NodeKind → Bool
  | .modifiers | .annotationMarker | .annotationWithArguments => true
  | _ => false

def load : NodeKind → Load
  | .classBody => .members
  | .variableDeclarator => .declarator
  | .constructorBody => .constructor
  | .explicitConstructorInvocation => .delegation
  | .modifiers | .annotationMarker | .annotationWithArguments | .superclass | .superInterfaces | .extendsInterfaces
  | .permits | .typeParameters | .throws | .receiverParameter | .dimensions | .identifier | .scopedIdentifier
  | .asterisk | .underscorePattern | .typeIdentifier | .scopedTypeIdentifier | .genericType | .arrayType
  | .annotatedType | .integralType | .floatingPointType | .booleanType | .voidType | .typeArguments
  | .catchFormalParameter | .catchType | .classLiteral | .thisExpr | .superExpr | .characterLiteral
  | .decimalIntegerLiteral | .hexIntegerLiteral | .octalIntegerLiteral | .binaryIntegerLiteral
  | .decimalFloatingPointLiteral | .hexFloatingPointLiteral | .trueLiteral | .falseLiteral | .nullLiteral
  | .lineComment | .blockComment | .finalKeyword | .publicKeyword | .abstractKeyword | .staticKeyword
  | .otherModifier | .operatorMark => .calm
  | _ => .busy

end NodeKind

/-- no calls lie in the node outside annotations -/
def Node.isCalm (n : Node) : Bool :=
  n.kind.load == .calm

/-- where a node stands among the children of its parent -/
inductive ChildSlot where
  | role (r : Role)
  /-- the body of an anonymous class, which plays no role -/
  | members
  | plain
deriving DecidableEq, Repr

def slotOf (role : Option Role) (isMembers : Bool) : ChildSlot :=
  match role with
  | some r => .role r
  | none => if isMembers then .members else .plain

def Node.slot (n : Node) : ChildSlot :=
  slotOf n.role (n.kind == .classBody)

/-- nodes without comments -/
def codeNodes (ns : List Node) : List Node :=
  ns.filter fun n => !n.isComment

@[simp] theorem codeNodes_append (ns ms : List Node) : codeNodes (ns ++ ms) = codeNodes ns ++ codeNodes ms :=
  List.filter_append ..

theorem mem_codeNodes {ns : List Node} {n : Node} : n ∈ codeNodes ns ↔ n ∈ ns ∧ n.isComment = false := by
  simp [codeNodes]

/-! ## Words -/

/-- a node of a word; `many` nodes are any number of them, one after the other -/
structure Part where
  role : Option Role
  load : Load
  many : Bool
deriving DecidableEq, Repr

abbrev Word := List Part

def Part.slot (p : Part) : ChildSlot :=
  slotOf p.role (p.load == .members)

/-- whether a node can be this part -/
def Part.Takes (p : Part) (n : Node) : Prop :=
  n.role = p.role ∧ p.load.covers n.kind.load = true

theorem Load.eq_classBody {k : NodeKind} (h : k.load = .members) : k = .classBody := by
  revert h
  cases k <;> decide

theorem Part.Takes.slot {p : Part} {n : Node} (h : p.Takes n) : n.slot = p.slot := by
  obtain ⟨hr, hl⟩ := h
  rw [Node.slot, Part.slot, hr]
  congr 1
  cases hp : p.load with
  | members =>
    have hk : n.kind.load = .members := by
      rw [hp] at hl
      revert hl
      cases n.kind.load <;> decide
    rw [Load.eq_classBody hk]
    rfl
  | _ =>
    rw [hp] at hl
    refine beq_false_of_ne fun hk => ?_
    rw [hk] at hl
    exact absurd hl (by decide)

theorem Part.Takes.calm {p : Part} {n : Node} (h : p.Takes n) (hp : p.load = .calm) : n.isCalm = true := by
  have hl := h.2
  rw [hp] at hl
  rw [Node.isCalm]
  revert hl
  cases n.kind.load <;> decide

theorem Load.eq_variableDeclarator {k : NodeKind} (h : k.load = .declarator) : k = .variableDeclarator := by
  revert h
  cases k <;> decide

theorem Part.Takes.declarator {p : Part} {n : Node} (h : p.Takes n) (hp : p.load = .declarator) :
    n.kind = .variableDeclarator := by
  have hl := h.2
  rw [hp] at hl
  refine Load.eq_variableDeclarator ?_
  revert hl
  cases n.kind.load <;> decide

/-- the nodes are those of the word, in its order -/
inductive Fits : Word → List Node → Prop where
  | nil : Fits [] []
  | one {p : Part} {w : Word} {n : Node} {ns : List Node} : p.Takes n → Fits w ns → Fits (p :: w) (n :: ns)
  | skip {p : Part} {w : Word} {ns : List Node} : p.many = true → Fits w ns → Fits (p :: w) ns
  | more {p : Part} {w : Word} {n : Node} {ns : List Node} :
    p.many = true → p.Takes n → Fits (p :: w) ns → Fits (p :: w) (n :: ns)

theorem Fits.append {v w : Word} {ns ms : List Node} (h : Fits v ns) (k : Fits w ms) : Fits (v ++ w) (ns ++ ms) := by
  induction h with
  | nil => exact k
  | one ht _ ih => exact .one ht ih
  | skip hm _ ih => exact .skip hm ih
  | more hm ht _ ih => exact .more hm ht ih

/-- each node is one of the word's parts -/
theorem Fits.mem {w : Word} {ns : List Node} (h : Fits w ns) {n : Node} (hn : n ∈ ns) : ∃ p ∈ w, p.Takes n := by
  induction h with
  | nil => simp at hn
  | @one p w m ns ht _ ih =>
    rcases List.mem_cons.1 hn with rfl | hn
    · exact ⟨p, by simp, ht⟩
    · obtain ⟨q, hq, hqn⟩ := ih hn
      exact ⟨q, by simp [hq], hqn⟩
  | skip _ _ ih =>
    obtain ⟨q, hq, hqn⟩ := ih hn
    exact ⟨q, by simp [hq], hqn⟩
  | @more p w m ns _ ht _ ih =>
    rcases List.mem_cons.1 hn with rfl | hn
    · exact ⟨p, by simp, ht⟩
    · exact ih hn

/-- each part that stands for one node is there -/
theorem Fits.exists_of_part {w : Word} {ns : List Node} (h : Fits w ns) {p : Part} (hp : p ∈ w) (hone : p.many = false) :
    ∃ n ∈ ns, p.Takes n := by
  induction h with
  | nil => simp at hp
  | @one q w m ns ht _ ih =>
    rcases List.mem_cons.1 hp with rfl | hp
    · exact ⟨m, by simp, ht⟩
    · obtain ⟨n, hn, hpn⟩ := ih hp
      exact ⟨n, by simp [hn], hpn⟩
  | skip hm _ ih =>
    rcases List.mem_cons.1 hp with rfl | hp
    · simp [hone] at hm
    · exact ih hp
  | more hm _ _ ih =>
    obtain ⟨n, hn, hpn⟩ := ih hp
    exact ⟨n, by simp [hn], hpn⟩

theorem Fits.length_le {w : Word} {ns : List Node} (h : Fits w ns) (hone : ∀ p ∈ w, p.many = false) :
    ns.length ≤ w.length := by
  induction h with
  | nil => exact le_rfl
  | one _ _ ih => simpa using ih fun p hp => hone p (List.mem_cons_of_mem _ hp)
  | skip hm => simp [hone _ List.mem_cons_self] at hm
  | more hm => simp [hone _ List.mem_cons_self] at hm

/-- the slots of the nodes are those of the word, where the word has single parts -/
theorem Fits.slots {w : Word} {ns : List Node} (h : Fits w ns) (picked : List ChildSlot)
    (hone : ∀ p ∈ w, p.slot ∈ picked → p.many = false) :
    ((ns.map Node.slot).filter (· ∈ picked)).Sublist ((w.map Part.slot).filter (· ∈ picked)) := by
  induction h with
  | nil => exact List.Sublist.refl _
  | one ht _ ih =>
    have ih := ih fun p hp => hone p (List.mem_cons_of_mem _ hp)
    simp only [List.map_cons, ht.slot]
    rw [List.filter_cons, List.filter_cons]
    split_ifs
    · exact ih.cons_cons _
    · exact ih
  | skip _ _ ih =>
    refine (ih fun p hp => hone p (List.mem_cons_of_mem _ hp)).trans ?_
    simp only [List.map_cons]
    exact (List.sublist_cons_self _ _).filter _
  | @more p w n ns hm ht _ ih =>
    have hp : p.slot ∉ picked := fun hp => by simp [hone p (by simp) hp] at hm
    simp only [List.map_cons, ht.slot, List.filter_cons, decide_eq_true_eq, hp, if_false]
    simpa [List.filter_cons, hp] using ih hone

/-! ## Forms -/

/-- what is known of the children of a node -/
structure Form where
  /-- slots of children that are looked up, in their order in the text -/
  picked : List ChildSlot
  /-- slots that are never empty -/
  needed : List ChildSlot
  /-- slots of other children that may hold calls -/
  free : List ChildSlot

/-- nodes of a form, comments left out -/
structure Form.Holds (f : Form) (ns : List Node) : Prop where
  order : ((ns.map Node.slot).filter (· ∈ f.picked)).Sublist f.picked
  needed : ∀ s ∈ f.needed, ∃ n ∈ ns, n.slot = s
  rest : ∀ n ∈ ns, n.slot ∉ f.picked → n.slot ∈ f.free ∨ n.isCalm = true

/-- whether all nodes of a word are of the form -/
def Form.allows (f : Form) (w : Word) : Bool :=
  ((w.map Part.slot).filter (· ∈ f.picked)).isSublist f.picked
    && f.needed.all (fun s => w.any fun p => p.slot == s && !p.many)
    && w.all fun p => if p.slot ∈ f.picked then !p.many else decide (p.slot ∈ f.free) || p.load == .calm

theorem Form.holds_of_allows {f : Form} {w : Word} {ns : List Node} (h : f.allows w = true) (hw : Fits w ns) :
    f.Holds ns := by
  simp only [Form.allows, Bool.and_eq_true, List.isSublist_iff_sublist, List.all_eq_true] at h
  obtain ⟨⟨horder, hneeded⟩, hrest⟩ := h
  refine ⟨(hw.slots f.picked fun p hp hs => ?_).trans horder, fun s hs => ?_, fun n hn hs => ?_⟩
  · simpa [hs] using hrest p hp
  · obtain ⟨p, hp, hps⟩ := List.any_eq_true.1 (hneeded s hs)
    rw [Bool.and_eq_true, beq_iff_eq, Bool.not_eq_true'] at hps
    obtain ⟨n, hn, ht⟩ := hw.exists_of_part hp hps.2
    exact ⟨n, hn, ht.slot.trans hps.1⟩
  · obtain ⟨p, hp, ht⟩ := hw.mem hn
    have hp := hrest p hp
    rw [← ht.slot, if_neg hs, Bool.or_eq_true, decide_eq_true_eq, beq_iff_eq] at hp
    exact hp.imp_right ht.calm

namespace NodeKind

/-- forms of the kinds whose children are looked up -/
def form? : NodeKind → Option Form
  | .methodInvocation => some ⟨[.role .object, .role .arguments], [.role .name, .role .arguments], []⟩
  | .objectCreationExpression => some ⟨[.role .arguments, .members], [.role .type, .role .arguments], [.plain]⟩
  | .explicitConstructorInvocation =>
    some ⟨[.role .arguments], [.role .constructor, .role .arguments], [.role .object]⟩
  | .fieldAccess => some ⟨[.role .object], [.role .object, .role .field], []⟩
  | .binaryExpression => some ⟨[.role .left, .role .right], [.role .left, .role .operator, .role .right], []⟩
  | .lambdaExpression => some ⟨[.role .body], [], [.role .parameters]⟩
  | .enhancedForStatement => some ⟨[.role .value, .role .body], [], []⟩
  | .methodDeclaration | .constructorDeclaration | .classDeclaration | .interfaceDeclaration | .enumDeclaration
  | .recordDeclaration | .annotationTypeDeclaration => some ⟨[.role .body], [.role .name], [.role .parameters]⟩
  | .compactConstructorDeclaration => some ⟨[.role .body], [], []⟩
  | .variableDeclarator => some ⟨[.role .value], [.role .name], []⟩
  | .enumConstant => some ⟨[.role .arguments, .role .body], [], []⟩
  | _ => none

/-- a resource that declares a variable -/
def declaredResource : Form := ⟨[.role .value], [.role .name, .role .value], []⟩

/-- whether the children of a node of a kind may be as a word says, as far as lowering looks at them -/
def admits (kind : NodeKind) (w : Word) : Bool :=
  (kind.form?.all (·.allows w)) &&
    match kind with
    | .objectCreationExpression => w.all fun p => p.role.isNone || p.load != .members
    | .resource => declaredResource.allows w || w.all (·.role.isNone)
    | .parenthesizedExpression => w.length ≤ 1 && w.all (!·.many)
    | .localVariableDeclaration | .fieldDeclaration | .constantDeclaration =>
      w.all fun p => if p.role = some .declarator then p.load == .declarator else p.load == .calm
    | kind => kind.isNote || kind.load != .calm || w.all (·.load == .calm)

/-- whether another constructor is called only in the body of a constructor, and that is a body -/
def delegates (kind : NodeKind) (w : Word) : Bool :=
  w.all fun p => (p.load != .delegation || kind == .constructorBody) && (p.load != .constructor || p.role == some .body)

/-- whether the children of a node of a kind may be as a word says -/
def allows (kind : NodeKind) (w : Word) : Bool :=
  kind.admits w && kind.delegates w

end NodeKind

/-! ## Trees -/

/-- the node and all nodes in it have children that their kinds allow; comments have neither a role nor children -/
inductive Node.Shaped : Node → Prop where
  | mk {kind : NodeKind} {role : Option Role} {start stop : Nat} {children : List Node} {w : Word} :
    (kind.isComment = true → role = none ∧ children = []) → kind.allows w = true → Fits w (codeNodes children) →
    (∀ c ∈ children, c.Shaped) → Shaped (.mk kind role start stop children)

theorem Node.isCalm_of_isComment (n : Node) (h : n.isComment = true) : n.isCalm = true := by
  simp only [Node.isComment] at h
  rw [Node.isCalm]
  revert h
  cases n.kind <;> decide

theorem Node.slot_eq_role (n : Node) (r : Role) : n.slot = .role r ↔ n.role = some r := by
  unfold Node.slot slotOf
  cases n.role with
  | none => cases n.kind == .classBody <;> simp
  | some r' => simp

theorem Node.slot_eq_members (n : Node) : n.slot = .members ↔ n.role = none ∧ n.kind = .classBody := by
  unfold Node.slot slotOf
  cases n.role with
  | none => cases hk : n.kind == .classBody <;> simp_all
  | some r' => simp

theorem codeNodes_slot {ns : List Node} (h : ∀ n ∈ ns, n.isComment = true → n.role = none) (r : Role) :
    (codeNodes ns).find? (·.slot == .role r) = ns.find? (·.role == some r) := by
  rw [codeNodes, List.find?_filter]
  refine List.find?_congr fun n hn => ?_
  have same : (n.slot == .role r) = (n.role == some r) := by
    rw [Bool.eq_iff_iff, beq_iff_eq, beq_iff_eq, n.slot_eq_role]
  rw [same]
  cases hc : n.isComment with
  | true => simp [h n hn hc]
  | false => simp [Bool.beq_eq_decide_eq]

theorem flatMap_filter_of_nil {α β : Type} {f : α → List β} {p : α → Bool} {l : List α}
    (h : ∀ x ∈ l, p x = false → f x = []) : (l.filter p).flatMap f = l.flatMap f := by
  induction l with
  | nil => rfl
  | cons x l ih =>
    have ih := ih fun y hy => h y (List.mem_cons_of_mem _ hy)
    cases hp : p x with
    | true => rw [List.filter_cons_of_pos hp, List.flatMap_cons, List.flatMap_cons, ih]
    | false =>
      rw [List.filter_cons_of_neg (by simp [hp]), List.flatMap_cons, h x (by simp) hp, ih]
      rfl

theorem find?_slot_append {pre post : List Node} {s : ChildSlot} (h : ∀ n ∈ pre, n.slot ≠ s) :
    (pre ++ post).find? (·.slot == s) = post.find? (·.slot == s) := by
  have none : pre.find? (·.slot == s) = none := List.find?_eq_none.2 fun n hn hs => h n hn (beq_iff_eq.1 hs)
  rw [List.find?_append, none, Option.none_or]

/-- what hangs on the nodes of a list hangs on those in picked slots, when nothing hangs on the others -/
theorem flatMap_picked {β : Type} {f : Node → List β} {picked : List ChildSlot} (hnd : picked.Nodup) {ns : List Node}
    (horder : ((ns.map Node.slot).filter (· ∈ picked)).Sublist picked)
    (hrest : ∀ n ∈ ns, n.slot ∉ picked → f n = []) :
    ns.flatMap f = picked.flatMap fun s => (ns.find? (·.slot == s)).toList.flatMap f := by
  induction picked generalizing ns with
  | nil =>
    rw [List.flatMap_nil, List.flatMap_eq_nil_iff]
    exact fun n hn => hrest n hn (by simp)
  | cons s picked ih =>
    obtain ⟨hs, hnd⟩ := List.nodup_cons.1 hnd
    rw [List.flatMap_cons]
    rcases List.sublist_cons_iff.1 horder with horder | ⟨r, hr, hsub⟩
    · have absent : ∀ n ∈ ns, n.slot ≠ s := by
        intro n hn h
        exact hs (horder.subset (List.mem_filter.2 ⟨List.mem_map.2 ⟨n, hn, h⟩, by simp⟩))
      have none : ns.find? (·.slot == s) = none := by simpa using absent
      have kept : (ns.map Node.slot).filter (· ∈ s :: picked) = (ns.map Node.slot).filter (· ∈ picked) := by
        refine List.filter_congr fun t ht => ?_
        obtain ⟨n, hn, rfl⟩ := List.mem_map.1 ht
        simp [absent n hn]
      rw [none, ih hnd (kept ▸ horder) fun n hn h => hrest n hn (by simp [absent n hn, h])]
      rfl
    · rw [List.filter_map] at hr
      obtain ⟨m, ms, hms, hm, rfl⟩ := List.map_eq_cons_iff.1 hr
      obtain ⟨pre, post, rfl, hpre, -, hpost⟩ := List.filter_eq_cons_iff.1 hms
      have pre_not : ∀ n ∈ pre, n.slot ∉ s :: picked := fun n hn => by simpa using hpre n hn
      have post_not : ∀ n ∈ post, n.slot ≠ s := by
        intro n hn h
        refine hs (hsub.subset (List.mem_map.2 ⟨n, ?_, h⟩))
        rw [← hpost]
        exact List.mem_filter.2 ⟨hn, by simp [h]⟩
      have first : (pre ++ m :: post).find? (·.slot == s) = some m := by
        rw [find?_slot_append fun n hn h => pre_not n hn (h ▸ List.mem_cons_self), List.find?_cons_of_pos (by simp [hm])]
      have later : ∀ t ∈ picked, (pre ++ m :: post).find? (·.slot == t) = post.find? (·.slot == t) := by
        intro t ht
        have hne : m.slot ≠ t := fun h => hs (hm ▸ h ▸ ht)
        rw [find?_slot_append fun n hn h => pre_not n hn (h ▸ List.mem_cons_of_mem s ht),
          List.find?_cons_of_neg (by simp [hne])]
      have order : ((post.map Node.slot).filter (· ∈ picked)).Sublist picked := by
        refine List.Sublist.trans ?_ hsub
        rw [List.filter_map, ← hpost]
        refine List.Sublist.map _ (List.monotone_filter_right _ fun n h => ?_)
        simpa using Or.inr (by simpa using h)
      rw [first, List.flatMap_append, List.flatMap_cons, List.flatMap_eq_nil_iff.2 fun n hn =>
        hrest n (by simp [hn]) (pre_not n hn), ih hnd order fun n hn h => hrest n (by simp [hn])
        (by simp [post_not n hn, h])]
      simp only [Option.toList_some, List.flatMap_singleton, List.nil_append]
      congr 1
      exact List.flatMap_congr fun t ht => by rw [later t ht]

namespace Node.Shaped

variable {n c : Node}

theorem child (h : n.Shaped) (hc : c ∈ n.children) : c.Shaped := by
  cases h with
  | mk _ _ _ hch => exact hch c hc

theorem comment_role (h : n.Shaped) (hn : n.isComment = true) : n.role = none := by
  cases h with
  | mk hr _ _ _ => exact (hr hn).1

theorem comment_children (h : n.Shaped) (hn : n.isComment = true) : n.children = [] := by
  cases h with
  | mk hr _ _ _ => exact (hr hn).2

theorem child? (h : n.Shaped) (r : Role) : (codeNodes n.children).find? (·.slot == .role r) = n.child? r :=
  codeNodes_slot (fun _ hc => (h.child hc).comment_role) r

/-- a needed slot is found -/
theorem child?_of_needed (h : n.Shaped) {r : Role} (hr : ∃ c ∈ codeNodes n.children, c.slot = .role r) :
    ∃ c, n.child? r = some c := by
  obtain ⟨c, hc, hs⟩ := hr
  rw [← h.child?, ← Option.isSome_iff_exists, List.find?_isSome]
  exact ⟨c, hc, by simpa using hs⟩

theorem word (h : n.Shaped) :
    ∃ w, n.kind.admits w = true ∧ n.kind.delegates w = true ∧ Fits w (codeNodes n.children) := by
  cases h with
  | mk _ ha hw _ =>
    obtain ⟨hadmits, hdelegates⟩ := Bool.and_eq_true_iff.1 ha
    exact ⟨_, hadmits, hdelegates, hw⟩

theorem form (h : n.Shaped) {f : Form} (hf : n.kind.form? = some f) : f.Holds (codeNodes n.children) := by
  obtain ⟨w, ha, -, hw⟩ := h.word
  unfold NodeKind.admits at ha
  rw [Bool.and_eq_true, hf] at ha
  exact f.holds_of_allows ha.1 hw

/-- children of a calm node are calm, but for notes -/
theorem calm_child (h : n.Shaped) (hn : n.isCalm = true) (hnote : n.kind.isNote = false) (hc : c ∈ n.children) :
    c.isCalm = true := by
  obtain ⟨w, ha, -, hw⟩ := h.word
  have all : (w.all (·.load == .calm)) = true := by
    rw [Node.isCalm] at hn
    revert hn hnote ha
    cases n.kind <;> intro hn hnote ha <;>
      first | exact absurd hn (by decide) | exact absurd hnote (by decide) | exact ha
  cases hcom : c.isComment with
  | true => exact c.isCalm_of_isComment hcom
  | false =>
    obtain ⟨p, hp, ht⟩ := hw.mem (mem_codeNodes.2 ⟨hc, hcom⟩)
    exact ht.calm (by simpa using List.all_eq_true.1 all p hp)

theorem comment_slot (h : n.Shaped) (hn : n.isComment = true) : n.slot = .plain := by
  rw [slot, h.comment_role hn]
  rw [isComment] at hn
  revert hn
  cases n.kind <;> decide

/-- what hangs on the children of a node hangs on those in picked slots, when nothing hangs on the others -/
theorem flatMap_children (h : n.Shaped) {f : Form} (hf : f.Holds (codeNodes n.children)) (hnd : f.picked.Nodup)
    (hplain : .plain ∉ f.picked) {β : Type} {g : Node → List β}
    (hcalm : ∀ c ∈ n.children, c.slot ∉ f.picked → c.isCalm = true → g c = [])
    (hfree : ∀ c ∈ n.children, c.slot ∉ f.picked → c.slot ∈ f.free → g c = []) :
    n.children.flatMap g =
      f.picked.flatMap fun s => ((codeNodes n.children).find? (·.slot == s)).toList.flatMap g := by
  have code : n.children.flatMap g = (codeNodes n.children).flatMap g := by
    rw [codeNodes, flatMap_filter_of_nil]
    intro c hc hcom
    have hcom : c.isComment = true := by simpa using hcom
    refine hcalm c hc ?_ (c.isCalm_of_isComment hcom)
    rwa [(h.child hc).comment_slot hcom]
  rw [code, flatMap_picked hnd hf.order fun c hc hs => ?_]
  have hmem := (mem_codeNodes.1 hc).1
  rcases hf.rest c hc hs with hfr | hca
  · exact hfree c hmem hs hfr
  · exact hcalm c hmem hs hca

theorem resource (h : n.Shaped) (hk : n.kind = .resource) :
    NodeKind.declaredResource.Holds (codeNodes n.children) ∨ ∀ c ∈ n.children, c.role = none := by
  obtain ⟨w, ha, -, hw⟩ := h.word
  rw [hk] at ha
  have ha : (NodeKind.declaredResource.allows w || w.all (·.role.isNone)) = true := ha
  rcases Bool.or_eq_true_iff.1 ha with ha | ha
  · exact Or.inl (Form.holds_of_allows ha hw)
  · refine Or.inr fun c hc => ?_
    cases hcom : c.isComment with
    | true => exact (h.child hc).comment_role hcom
    | false =>
      obtain ⟨p, hp, ht⟩ := hw.mem (mem_codeNodes.2 ⟨hc, hcom⟩)
      exact ht.1.trans (by simpa using List.all_eq_true.1 ha p hp)

/-- only one expression stands in parentheses -/
theorem parenthesized (h : n.Shaped) (hk : n.kind = .parenthesizedExpression) :
    (codeNodes n.children).length ≤ 1 := by
  obtain ⟨w, ha, -, hw⟩ := h.word
  rw [hk] at ha
  have ha : (decide (w.length ≤ 1) && w.all (!·.many)) = true := ha
  rw [Bool.and_eq_true, decide_eq_true_eq] at ha
  exact (hw.length_le (by simpa using ha.2)).trans ha.1

/-- the children of a declaration of variables are declarators or calm -/
theorem declared (h : n.Shaped)
    (hk : n.kind = .localVariableDeclaration ∨ n.kind = .fieldDeclaration ∨ n.kind = .constantDeclaration)
    (hc : c ∈ n.children) :
    (c.role = some .declarator ∧ c.kind = .variableDeclarator) ∨ (c.role ≠ some .declarator ∧ c.isCalm = true) := by
  obtain ⟨w, ha, -, hw⟩ := h.word
  have all : w.all (fun p => if p.role = some .declarator then p.load == .declarator else p.load == .calm) = true := by
    rcases hk with hk | hk | hk <;> (rw [hk] at ha; exact ha)
  cases hcom : c.isComment with
  | true => exact Or.inr ⟨by simp [(h.child hc).comment_role hcom], c.isCalm_of_isComment hcom⟩
  | false =>
    obtain ⟨p, hp, ht⟩ := hw.mem (mem_codeNodes.2 ⟨hc, hcom⟩)
    have hp := List.all_eq_true.1 all p hp
    rw [← ht.1] at hp
    split_ifs at hp with hr
    · exact Or.inl ⟨hr, ht.declarator (by simpa using hp)⟩
    · exact Or.inr ⟨hr, ht.calm (by simpa using hp)⟩

theorem delegates_child (h : n.Shaped) (hc : c ∈ n.children) :
    (c.kind = .explicitConstructorInvocation → n.kind = .constructorBody) ∧
      (c.kind = .constructorBody → c.role = some .body) := by
  obtain ⟨w, -, hd, hw⟩ := h.word
  have part (hcom : c.isComment = false) : ∃ p : Part, p.Takes c ∧
      (p.load = .delegation → n.kind = .constructorBody) ∧ (p.load = .constructor → p.role = some .body) := by
    obtain ⟨p, hp, ht⟩ := hw.mem (mem_codeNodes.2 ⟨hc, hcom⟩)
    have hp := List.all_eq_true.1 hd p hp
    rw [Bool.and_eq_true] at hp
    exact ⟨p, ht, fun hl => by simpa [hl] using hp.1, fun hl => by simpa [hl] using hp.2⟩
  constructor
  · intro hk
    obtain ⟨p, ht, hload, -⟩ := part (by rw [isComment, hk]; rfl)
    have hl := ht.2
    rw [hk] at hl
    refine hload ?_
    revert hl
    cases p.load <;> decide
  · intro hk
    obtain ⟨p, ht, -, hload⟩ := part (by rw [isComment, hk]; rfl)
    have hl := ht.2
    rw [hk] at hl
    rw [ht.1]
    refine hload ?_
    revert hl
    cases p.load <;> decide

/-- the only class body under the creation of an object is that of an anonymous class -/
theorem anonymousBody (h : n.Shaped) (hk : n.kind = .objectCreationExpression) :
    (codeNodes n.children).find? (·.slot == .members) = n.childOfKind? .classBody := by
  obtain ⟨w, ha, -, hw⟩ := h.word
  have all : w.all (fun p => p.role.isNone || p.load != .members) = true := by
    rw [hk] at ha
    exact (Bool.and_eq_true_iff.1 (show (_ && _) = true from ha)).2
  rw [codeNodes, List.find?_filter, childOfKind?]
  refine List.find?_congr fun c hc => ?_
  have slot : c.isComment = false → c.kind = .classBody → c.slot = .members := by
    intro hcom hkind
    obtain ⟨p, hp, ht⟩ := hw.mem (mem_codeNodes.2 ⟨hc, hcom⟩)
    have hp := List.all_eq_true.1 all p hp
    have hload : p.load = .members := by
      have hl := ht.2
      rw [hkind] at hl
      revert hl
      cases p.load <;> decide
    rw [hload, bne_self_eq_false, Bool.or_false, Option.isNone_iff_eq_none] at hp
    rw [slot_eq_members, ht.1]
    exact ⟨hp, hkind⟩
  rw [Bool.eq_iff_iff, decide_eq_true_eq, beq_iff_eq, beq_iff_eq, Bool.not_eq_true']
  constructor
  · exact fun hs => (c.slot_eq_members.1 hs.2).2
  · intro hkind
    have hcom : c.isComment = false := by rw [isComment, hkind]; rfl
    exact ⟨hcom, slot hcom hkind⟩

end Node.Shaped

end CallLint
