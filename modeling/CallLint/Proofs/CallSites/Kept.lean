/-
What is written at the sites that a unit keeps, node by node. `kept_eq` takes a node apart: the site that it is itself,
and the kept sites of its children. Nothing is kept of calm nodes (`kept_calm`), at positions outside code or lost, and
below the nesting limit (`kept_dead`).
-/
import CallLint.Proofs.CallSites.Sites

namespace CallLint

/-- what is written at the kept sites in a node that stands at a position -/
def Node.kept (s : Source) (p : Position) (n : Node) : List Written :=
  ((n.sites s p).filter Site.isKept).map fun site => site.node.written s

/-- what is written at a node itself, when it is a kept site -/
def Node.keptSelf (s : Source) (p : Position) (n : Node) : List Written :=
  if n.kind.isCallSite && Site.isKept ⟨n, p⟩ then [n.written s] else []

variable {s : Source} {n : Node}

theorem Node.kept_eq (s : Source) (p : Position) (n : Node) :
    n.kept s p =
      n.keptSelf s (p.enter n.kind) ++ n.children.flatMap fun c => c.kept s ((p.enter n.kind).child s n c) := by
  obtain ⟨kind, role, start, stop, children⟩ := n
  have inner : ((sitesIn s (.mk kind role start stop children) (p.enter kind) children).filter Site.isKept).map
      (fun site => site.node.written s) =
      children.flatMap fun c => c.kept s ((p.enter kind).child s (.mk kind role start stop children) c) := by
    rw [sitesIn_eq, List.filter_flatMap, List.map_flatMap]
    rfl
  rw [kept, Node.sites, keptSelf]
  change _ = _ ++ children.flatMap fun c => c.kept s ((p.enter kind).child s (.mk kind role start stop children) c)
  rw [← inner]
  dsimp only [Node.kind]
  generalize sitesIn s (.mk kind role start stop children) (p.enter kind) children = sites
  by_cases hk : kind.isCallSite = true
  · rw [if_pos hk, List.filter_cons]
    simp only [hk, Bool.true_and]
    split_ifs <;> simp
  · simp [hk]

/-! ## Positions of which nothing is kept -/

namespace Position

/-- outside code, lost, or too deep -/
def Dead : Position → Prop
  | outside | lost => True
  | declarator d | arguments d | group d | statement d | expression d => nestingLimit ≤ d
  | _ => False

theorem Dead.enter {p : Position} (h : p.Dead) (kind : NodeKind) : (p.enter kind).Dead := by
  cases p <;> simp only [Position.enter] <;> try exact h
  · split_ifs <;> trivial
  · split_ifs
    · trivial
    · exact Nat.le_succ_of_le h
    · exact h

theorem dead_inStatement {d : Nat} (h : nestingLimit ≤ d) (parent child : Node) : (inStatement d parent child).Dead := by
  unfold inStatement
  repeat' split
  all_goals first | trivial | exact Nat.le_succ_of_le h

theorem dead_inExpression {d : Nat} (h : nestingLimit ≤ d) (s : Source) (parent child : Node) :
    (inExpression s d parent child).Dead := by
  unfold inExpression
  repeat' split
  all_goals first | trivial | exact Nat.le_succ_of_le h

theorem Dead.child {p : Position} (h : p.Dead) (s : Source) (parent child : Node) : (p.child s parent child).Dead := by
  cases p with
  | outside | lost => trivial
  | declarator d =>
    simp only [Position.child]
    split_ifs <;> exact h
  | arguments d => exact h
  | group d => exact h
  | statement d => exact dead_inStatement h parent child
  | expression d => exact dead_inExpression h s parent child
  | file | type | members | fields | routine | constant => exact h.elim

theorem Dead.keptSelf {p : Position} (h : p.Dead) (s : Source) (n : Node) : n.keptSelf s p = [] := by
  have no : Site.isKept ⟨n, p⟩ = false := by
    cases p with
    | statement d => exact decide_eq_false (Nat.not_lt.2 h)
    | expression d =>
      have : decide (d < nestingLimit) = false := decide_eq_false (Nat.not_lt.2 h)
      simp [Site.isKept, this]
    | _ => rfl
  simp [Node.keptSelf, no]

end Position

mutual

/-- nothing is kept at dead positions -/
theorem Node.kept_dead : ∀ (n : Node) {p : Position}, p.Dead → n.kept s p = []
  | .mk kind role start stop children, p, h => by
    rw [Node.kept_eq]
    have h := h.enter kind
    simp only [Node.kind, Node.children, h.keptSelf, List.nil_append]
    exact kept_dead_in children fun c => h.child s _ c
termination_by structural n => n

theorem kept_dead_in : ∀ (cs : List Node) {f : Node → Position}, (∀ c, (f c).Dead) →
    (cs.flatMap fun c => c.kept s (f c)) = []
  | [], _, _ => rfl
  | c :: cs, f, h => by rw [List.flatMap_cons, Node.kept_dead c (h c), kept_dead_in cs h]; rfl
termination_by structural cs => cs

end

/-! ## Calm nodes -/

theorem NodeKind.isCallSite_of_calm {k : NodeKind} (h : k.load = .calm) : k.isCallSite = false := by
  revert h
  cases k <;> decide

theorem Position.inStatement_calm {parent : Node} (h : parent.isCalm = true) (d : Nat) (child : Node) :
    inStatement d parent child = .statement (d + 1) := by
  simp only [Node.isCalm, beq_iff_eq] at h
  unfold inStatement
  revert h
  cases parent.kind <;> intro h <;> first | rfl | exact absurd h (by decide)

theorem Position.inExpression_calm {parent : Node} (h : parent.isCalm = true) (s : Source) (d : Nat) (child : Node) :
    inExpression s d parent child = .statement (d + 1) := by
  simp only [Node.isCalm, beq_iff_eq] at h
  unfold inExpression
  revert h
  cases parent.kind <;> intro h <;> first | rfl | exact absurd h (by decide)

/-- nothing is kept of calm nodes where statements or expressions stand; notes stand as no expressions -/
theorem Node.Shaped.kept_calm (h : n.Shaped) (hn : n.isCalm = true) (d : Nat) :
    n.kept s (.statement d) = [] ∧ (n.kind.isNote = false → n.kept s (.expression d) = []) := by
  induction h generalizing d with
  | @mk kind role start stop children w hr ha hw hc ih =>
    have shaped : (Node.mk kind role start stop children).Shaped := .mk hr ha hw hc
    have self (p : Position) : (Node.mk kind role start stop children).keptSelf s p = [] := by
      have : kind.isCallSite = false := NodeKind.isCallSite_of_calm (by simpa [Node.isCalm, Node.kind] using hn)
      simp [keptSelf, Node.kind, this]
    have inner (hnote : kind.isNote = false) (e : Nat) :
        (children.flatMap fun c => c.kept s (.statement e)) = [] := by
      rw [List.flatMap_eq_nil_iff]
      exact fun c hcm => (ih c hcm (shaped.calm_child hn hnote hcm) e).1
    have expression (hnote : kind.isNote = false) (e : Nat) :
        (Node.mk kind role start stop children).kept s (.expression e) = [] := by
      rw [Node.kept_eq, self, List.nil_append]
      simp only [Position.enter, Position.child, Position.inExpression_calm hn]
      exact inner hnote _
    refine ⟨?_, fun hnote => expression hnote d⟩
    rw [Node.kept_eq, self, List.nil_append]
    cases hnote : kind.isNote with
    | true =>
      simp only [Position.enter, Node.kind, hnote, if_true]
      exact kept_dead_in children fun _ => trivial
    | false =>
      cases hexp : kind.isExpression with
      | true =>
        simp only [Position.enter, Node.kind, hnote, hexp, if_true, Bool.false_eq_true, if_false, Position.child,
          Position.inExpression_calm hn]
        exact inner hnote _
      | false =>
        simp only [Position.enter, Node.kind, hnote, hexp, Bool.false_eq_true, if_false, Position.child,
          Position.inStatement_calm hn]
        exact inner hnote _

/-! ## Lists -/

/-- no site stands at the position itself -/
def Position.isList : Position → Bool
  | .statement _ | .expression _ | .lost => false
  | _ => true

theorem Node.kept_list {p : Position} (hp : p.isList = true) (s : Source) (n : Node) :
    n.kept s p = n.children.flatMap fun c => c.kept s (p.child s n c) := by
  have enter : p.enter n.kind = p := by cases p <;> first | rfl | exact absurd hp Bool.false_ne_true
  have self : n.keptSelf s p = [] := by
    have no : Site.isKept ⟨n, p⟩ = false := by cases p <;> first | rfl | exact absurd hp Bool.false_ne_true
    simp [keptSelf, no]
  rw [kept_eq, enter, self, List.nil_append]

theorem Node.kept_arguments (s : Source) (n : Node) (d : Nat) :
    n.kept s (.arguments d) = n.children.flatMap (·.kept s (.expression d)) :=
  kept_list rfl s n

theorem Node.kept_group (s : Source) (n : Node) (d : Nat) :
    n.kept s (.group d) = n.children.flatMap (·.kept s (.statement d)) :=
  kept_list rfl s n

theorem Node.kept_members (s : Source) (n : Node) :
    n.kept s .members = n.children.flatMap fun c => c.kept s (Position.ofMember c.kind) :=
  kept_list rfl s n

/-! ## Call sites -/

/-- what is kept of the children in a role -/
def Node.keptIn (s : Source) (n : Node) (r : Role) (p : Position) : List Written :=
  (n.child? r).toList.flatMap (·.kept s p)

theorem Node.kept_expression (s : Source) (n : Node) (d : Nat) :
    n.kept s (.expression d) =
      n.keptSelf s (.expression d) ++ n.children.flatMap fun c => c.kept s (Position.inExpression s d n c) := by
  rw [Node.kept_eq]
  rfl

theorem Node.Shaped.kept_calm_child (h : n.Shaped) {c : Node} (hc : c ∈ n.children) (hcalm : c.isCalm = true) (d : Nat) :
    c.kept s (.statement d) = [] :=
  ((h.child hc).kept_calm hcalm d).1

theorem Node.child?_role {n c : Node} {r : Role} (h : n.child? r = some c) : c.role = some r := by
  simpa using List.find?_some h

theorem Node.child?_mem {n c : Node} {r : Role} (h : n.child? r = some c) : c ∈ n.children :=
  List.mem_of_find?_eq_some h

/-- what hangs on the child in a role, at the position that the role gives it -/
theorem Node.keptIn_eq {n : Node} {r : Role} {f : Node → Position} {p : Position}
    (h : ∀ c, c.role = some r → f c = p) :
    (n.child? r).toList.flatMap (fun c => c.kept s (f c)) = n.keptIn s r p := by
  rw [keptIn]
  cases hc : n.child? r with
  | none => rfl
  | some c => simp [h c (child?_role hc)]

/-- an explicit constructor call is no expression -/
theorem Node.keptSelf_expression (hm : n.kind ≠ .methodInvocation) (ho : n.kind ≠ .objectCreationExpression)
    {s : Source} {d : Nat} : n.keptSelf s (.expression d) = [] := by
  rw [keptSelf, if_neg]
  rw [Bool.and_eq_true, Site.isKept, Bool.and_eq_true]
  rintro ⟨hsite, hexp, -⟩
  revert hm ho hsite hexp
  cases n.kind <;> decide

theorem Position.inExpression_other {parent : Node} (hm : parent.kind ≠ .methodInvocation)
    (ho : parent.kind ≠ .objectCreationExpression) (hf : parent.kind ≠ .fieldAccess)
    (hb : parent.kind ≠ .binaryExpression) (hp : parent.kind ≠ .parenthesizedExpression)
    (hl : parent.kind ≠ .lambdaExpression) (hs : parent.kind ≠ .stringLiteral) {s : Source} {d : Nat} {child : Node} :
    inExpression s d parent child = .statement (d + 1) := by
  unfold inExpression
  split <;> first | contradiction | rfl

/-- what is kept of the children of a node, when the others stand at dead positions or are calm -/
theorem Node.Shaped.kept_children (h : n.Shaped) {f : Form} (hf : f.Holds (codeNodes n.children)) (hnd : f.picked.Nodup)
    (hplain : .plain ∉ f.picked) {pos : Node → Position}
    (hpos : ∀ c, c.slot ∉ f.picked → (pos c).Dead ∨ c.slot ∉ f.free ∧ ∃ d, pos c = .statement d) :
    (n.children.flatMap fun c => c.kept s (pos c)) = f.picked.flatMap fun sl =>
      ((codeNodes n.children).find? (·.slot == sl)).toList.flatMap fun c => c.kept s (pos c) := by
  refine h.flatMap_children hf hnd hplain (fun c hc hs hcalm => ?_) (fun c hc hs hfree => ?_)
  · rcases hpos c hs with hdead | ⟨-, d, hd⟩
    · exact kept_dead c hdead
    · rw [hd]
      exact h.kept_calm_child hc hcalm d
  · rcases hpos c hs with hdead | ⟨hno, -⟩
    · exact kept_dead c hdead
    · exact absurd hfree hno

/-- what is kept of the children in some roles, when the others stand at dead positions or are calm -/
theorem Node.Shaped.kept_roles (h : n.Shaped) {f : Form} (hf : f.Holds (codeNodes n.children)) (pos : Node → Position)
    (rs : List Role) (q : Role → Position) (hrs : f.picked = rs.map .role) (hnd : rs.Nodup)
    (hq : ∀ r ∈ rs, ∀ c : Node, c.role = some r → pos c = q r)
    (hpos : ∀ c : Node, (∀ r ∈ rs, c.role ≠ some r) →
      (pos c).Dead ∨ c.slot ∉ f.free ∧ ∃ d, pos c = .statement d) :
    (n.children.flatMap fun c => c.kept s (pos c)) = rs.flatMap fun r => n.keptIn s r (q r) := by
  have nodup : f.picked.Nodup := by
    rw [hrs]
    exact hnd.map fun _ _ => ChildSlot.role.inj
  have others (c : Node) (hs : c.slot ∉ f.picked) : ∀ r ∈ rs, c.role ≠ some r := by
    intro r hr hc
    rw [hrs] at hs
    exact hs (List.mem_map.2 ⟨r, hr, ((c.slot_eq_role r).2 hc).symm⟩)
  rw [h.kept_children hf nodup (by simp [hrs]) fun c hs => hpos c (others c hs), hrs, List.flatMap_map]
  refine List.flatMap_congr fun r hr => ?_
  rw [h.child?, keptIn_eq (hq r hr)]

section Expressions

variable {d : Nat}

theorem Node.Shaped.kept_methodInvocation (h : n.Shaped) (hk : n.kind = .methodInvocation) (hd : d < nestingLimit) :
    n.kept s (.expression d) =
      n.written s :: (n.keptIn s .object (.expression (d + 1)) ++ n.keptIn s .arguments (.arguments (d + 1))) := by
  have self : n.keptSelf s (.expression d) = [n.written s] := by
    simp [keptSelf, Site.isKept, hk, hd, NodeKind.isCallSite, NodeKind.isExpression]
  have hform := h.form (f := ⟨[.role .object, .role .arguments], [.role .name, .role .arguments], []⟩) (by rw [hk]; rfl)
  have inner := h.kept_roles (s := s) hform (Position.inExpression s d n) [.object, .arguments]
    (fun r => if r = .arguments then .arguments (d + 1) else .expression (d + 1)) rfl (by decide)
    (by simp +contextual [Position.inExpression, hk]) (fun c hc => by simp_all [Position.inExpression])
  rw [kept_expression, self, inner]
  simp

theorem Node.Shaped.kept_objectCreation (h : n.Shaped) (hk : n.kind = .objectCreationExpression)
    (hd : d < nestingLimit) :
    n.kept s (.expression d) =
      n.written s :: (n.keptIn s .arguments (.arguments (d + 1)) ++
        (n.childOfKind? .classBody).toList.flatMap (·.kept s (.group (d + 1)))) := by
  have self : n.keptSelf s (.expression d) = [n.written s] := by
    simp [keptSelf, Site.isKept, hk, hd, NodeKind.isCallSite, NodeKind.isExpression]
  have hform := h.form (f := ⟨[.role .arguments, .members], [.role .type, .role .arguments], [.plain]⟩)
    (by rw [hk]; rfl)
  have members : ((codeNodes n.children).find? (·.slot == .members)).toList.flatMap
      (fun c => c.kept s (Position.inExpression s d n c)) =
      (n.childOfKind? .classBody).toList.flatMap (·.kept s (.group (d + 1))) := by
    rw [← h.anonymousBody hk]
    cases hc : (codeNodes n.children).find? (·.slot == .members) with
    | none => rfl
    | some c =>
      have hs : c.slot = .members := by simpa using List.find?_some hc
      have hr := (c.slot_eq_members.1 hs).1
      simp [Position.inExpression, hk, hs, hr]
  rw [kept_expression, self, h.kept_children hform (by decide) (by decide) fun c hs => ?_]
  · simp only [List.flatMap_cons, List.flatMap_nil, List.append_nil, h.child?, members]
    rw [keptIn_eq (p := .arguments (d + 1)) fun c hr => by simp [Position.inExpression, hk, hr]]
    rfl
  · by_cases hp : c.slot = .plain
    · left
      simp_all [Position.inExpression, ← Node.slot_eq_role, Position.Dead]
    · right
      simp_all [Position.inExpression, ← Node.slot_eq_role]

theorem Node.keptSelf_not_site (hk : n.kind.isCallSite = false) (s : Source) (p : Position) : n.keptSelf s p = [] := by
  simp [keptSelf, hk]

theorem Node.Shaped.kept_fieldAccess (h : n.Shaped) (hk : n.kind = .fieldAccess) :
    n.kept s (.expression d) = n.keptIn s .object (.expression (d + 1)) := by
  have hform := h.form (f := ⟨[.role .object], [.role .object, .role .field], []⟩) (by rw [hk]; rfl)
  have inner := h.kept_roles (s := s) hform (Position.inExpression s d n) [.object] (fun _ => .expression (d + 1)) rfl
    (by decide) (by simp +contextual [Position.inExpression, hk]) (fun c hc => by simp_all [Position.inExpression])
  rw [kept_expression, keptSelf_not_site (by rw [hk]; rfl), inner]
  simp

theorem Node.Shaped.kept_binary (h : n.Shaped) (hk : n.kind = .binaryExpression) :
    n.kept s (.expression d) = n.keptIn s .left (.expression (d + 1)) ++ n.keptIn s .right (.expression (d + 1)) := by
  have hform := h.form (f := ⟨[.role .left, .role .right], [.role .left, .role .operator, .role .right], []⟩)
    (by rw [hk]; rfl)
  have inner := h.kept_roles (s := s) hform (Position.inExpression s d n) [.left, .right]
    (fun _ => .expression (d + 1)) rfl (by decide) (by simp +contextual [Position.inExpression, hk])
    (fun c hc => by simp_all [Position.inExpression])
  rw [kept_expression, keptSelf_not_site (by rw [hk]; rfl), inner]
  simp

theorem Node.Shaped.kept_lambda (h : n.Shaped) (hk : n.kind = .lambdaExpression) :
    n.kept s (.expression d) = n.keptIn s .body (.statement (d + 1)) := by
  have hform := h.form (f := ⟨[.role .body], [], [.role .parameters]⟩) (by rw [hk]; rfl)
  have inner := h.kept_roles (s := s) hform (Position.inExpression s d n) [.body] (fun _ => .statement (d + 1)) rfl
    (by decide) (by simp +contextual [Position.inExpression, hk]) (fun c hc => ?_)
  · rw [kept_expression, keptSelf_not_site (by rw [hk]; rfl), inner]
    simp
  · by_cases hr : c.role = some .parameters
    · simp [Position.inExpression, hk, hr, Position.Dead]
    · simp_all [Position.inExpression, Node.slot_eq_role]

end Expressions

/-! ## Statements -/

section Statements

variable {d : Nat}

theorem Node.kept_statement (hnote : n.kind.isNote = false) (hexp : n.kind.isExpression = false) (s : Source) (d : Nat) :
    n.kept s (.statement d) =
      n.keptSelf s (.statement d) ++ n.children.flatMap fun c => c.kept s (Position.inStatement d n c) := by
  rw [kept_eq]
  simp only [Position.enter, hnote, hexp, Bool.false_eq_true, if_false, Position.child]

/-- an expression may stand as a statement -/
theorem Node.kept_statement_expression (hexp : n.kind.isExpression = true) (s : Source) (d : Nat) :
    n.kept s (.statement d) = n.kept s (.expression (d + 1)) := by
  have hnote : n.kind.isNote = false := by
    revert hexp
    cases n.kind <;> decide
  rw [kept_eq, kept_eq]
  simp only [Position.enter, hnote, hexp, if_true, Bool.false_eq_true, if_false]

/-- kinds of statements whose children do not all stand as statements -/
def Position.sorts : NodeKind → Bool
  | .localVariableDeclaration | .fieldDeclaration | .methodDeclaration | .constructorDeclaration | .resource
  | .explicitConstructorInvocation => true
  | k => k.isTypeDeclaration

theorem Position.inStatement_kind {parent : Node} {k : NodeKind} (hk : parent.kind = k) (hsorts : sorts k = false)
    (child : Node) : inStatement d parent child = .statement (d + 1) := by
  unfold inStatement
  rw [hk]
  revert hsorts
  cases k <;> intro hsorts <;> first | rfl | exact absurd hsorts (by decide)

theorem Node.Shaped.kept_explicitInvocation (h : n.Shaped) (hk : n.kind = .explicitConstructorInvocation)
    (hd : d < nestingLimit) :
    n.kept s (.statement d) = n.written s :: n.keptIn s .arguments (.arguments (d + 1)) := by
  have self : n.keptSelf s (.statement d) = [n.written s] := by
    simp [keptSelf, Site.isKept, hk, hd, NodeKind.isCallSite]
  have hform := h.form
    (f := ⟨[.role .arguments], [.role .constructor, .role .arguments], [.role .object]⟩) (by rw [hk]; rfl)
  have inner := h.kept_roles (s := s) hform (Position.inStatement d n) [.arguments] (fun _ => .arguments (d + 1)) rfl
    (by decide) (by simp +contextual [Position.inStatement, NodeKind.isTypeDeclaration, hk]) (fun c hc => ?_)
  · rw [kept_statement (by rw [hk]; rfl) (by rw [hk]; rfl), self, inner]
    simp
  · by_cases hr : c.role = some .object
    · simp [Position.inStatement, NodeKind.isTypeDeclaration, hk, hr, Position.Dead]
    · simp_all [Position.inStatement, NodeKind.isTypeDeclaration, Node.slot_eq_role]

theorem Node.Shaped.kept_enhancedFor (h : n.Shaped) (hk : n.kind = .enhancedForStatement) :
    n.kept s (.statement d) = n.keptIn s .value (.statement (d + 1)) ++ n.keptIn s .body (.statement (d + 1)) := by
  have hform := h.form (f := ⟨[.role .value, .role .body], [], []⟩) (by rw [hk]; rfl)
  have pos (c : Node) : Position.inStatement d n c = .statement (d + 1) := Position.inStatement_kind hk rfl c
  have inner := h.kept_roles (s := s) hform (Position.inStatement d n) [.value, .body] (fun _ => .statement (d + 1)) rfl
    (by decide) (fun _ _ c _ => pos c) (fun c _ => by simp [pos])
  rw [kept_statement (by rw [hk]; rfl) (by rw [hk]; rfl), keptSelf_not_site (by rw [hk]; rfl), inner]
  simp

theorem Node.Shaped.kept_declaredResource (h : n.Shaped) (hk : n.kind = .resource)
    (hf : NodeKind.declaredResource.Holds (codeNodes n.children)) :
    n.kept s (.statement d) = n.keptIn s .value (.expression (d + 1)) := by
  have inner := h.kept_roles (s := s) hf (Position.inStatement d n) [.value] (fun _ => .expression (d + 1)) rfl
    (by decide) (by simp +contextual [Position.inStatement, NodeKind.isTypeDeclaration, hk])
    (fun c hc => by simp_all [NodeKind.declaredResource, Position.inStatement, NodeKind.isTypeDeclaration])
  rw [kept_statement (by rw [hk]; rfl) (by rw [hk]; rfl), keptSelf_not_site (by rw [hk]; rfl), inner]
  simp

theorem Node.Shaped.kept_localMethod (h : n.Shaped)
    (hk : n.kind = .methodDeclaration ∨ n.kind = .constructorDeclaration) :
    n.kept s (.statement d) = n.keptIn s .body (.statement (d + 1)) := by
  have hform := h.form (f := ⟨[.role .body], [.role .name], [.role .parameters]⟩)
    (by rcases hk with hk | hk <;> rw [hk] <;> rfl)
  have pos (c : Node) : Position.inStatement d n c =
      if c.role = some .parameters then .lost else .statement (d + 1) := by
    rcases hk with hk | hk <;> simp [Position.inStatement, NodeKind.isTypeDeclaration, hk]
  have inner := h.kept_roles (s := s) hform (Position.inStatement d n) [.body] (fun _ => .statement (d + 1)) rfl
    (by decide) (by simp +contextual [pos]) (fun c hc => ?_)
  · rw [kept_statement (by rcases hk with hk | hk <;> rw [hk] <;> rfl) (by rcases hk with hk | hk <;> rw [hk] <;> rfl),
      keptSelf_not_site (by rcases hk with hk | hk <;> rw [hk] <;> rfl), inner]
    simp
  · rw [pos]
    split_ifs with hr
    · exact Or.inl trivial
    · simp_all [Node.slot_eq_role]

theorem NodeKind.form_of_type {k : NodeKind} (h : k.isTypeDeclaration = true) :
    k.form? = some ⟨[.role .body], [.role .name], [.role .parameters]⟩ := by
  cases k <;> first | rfl | exact absurd h (by decide)

theorem NodeKind.plain_of_type {k : NodeKind} (h : k.isTypeDeclaration = true) :
    k.isNote = false ∧ k.isExpression = false ∧ k.isCallSite = false := by
  revert h
  cases k <;> decide

theorem Node.Shaped.kept_localType (h : n.Shaped) (hk : n.kind.isTypeDeclaration = true) :
    n.kept s (.statement d) = n.keptIn s .body (.group (d + 1)) := by
  obtain ⟨hnote, hexp, hsite⟩ := NodeKind.plain_of_type hk
  have inner := h.kept_roles (s := s) (h.form (NodeKind.form_of_type hk)) (Position.inStatement d n) [.body]
    (fun _ => .group (d + 1)) rfl (by decide) (by simp +contextual [Position.inStatement, hk]) (fun c hc => ?_)
  · rw [kept_statement hnote hexp, keptSelf_not_site hsite, inner]
    simp
  · by_cases hr : c.role = some .parameters
    · simp [Position.inStatement, hk, hr, Position.Dead]
    · simp_all [Position.inStatement, Node.slot_eq_role]

/-- the declarators hold all that is kept of a declaration of variables -/
theorem Node.Shaped.kept_localDeclaration (h : n.Shaped)
    (hk : n.kind = .localVariableDeclaration ∨ n.kind = .fieldDeclaration) :
    n.kept s (.statement d) = (n.childrenIn .declarator).flatMap (·.kept s (.declarator (d + 1))) := by
  have hpos (c : Node) : Position.inStatement d n c =
      if c.role = some .declarator then .declarator (d + 1) else .statement (d + 1) := by
    rcases hk with hk | hk <;> simp [Position.inStatement, NodeKind.isTypeDeclaration, hk]
  rw [kept_statement (by rcases hk with hk | hk <;> rw [hk] <;> rfl) (by rcases hk with hk | hk <;> rw [hk] <;> rfl),
    keptSelf_not_site (by rcases hk with hk | hk <;> rw [hk] <;> rfl), List.nil_append,
    ← flatMap_filter_of_nil (p := (·.role == some .declarator)) fun c hc hr => ?_]
  · refine List.flatMap_congr fun c hc => ?_
    have hr : c.role = some .declarator := by simpa using (List.mem_filter.1 hc).2
    rw [hpos, if_pos hr]
  · have hr : c.role ≠ some .declarator := by simpa using hr
    rw [hpos, if_neg hr]
    rcases h.declared (hk.imp_right Or.inl) hc with hd | hd
    · exact absurd hd.1 hr
    · exact h.kept_calm_child hc hd.2 _

theorem Node.Shaped.kept_declarator (h : n.Shaped) (hk : n.kind = .variableDeclarator) :
    n.kept s (.declarator d) = n.keptIn s .value (.expression d) := by
  have hform := h.form (f := ⟨[.role .value], [.role .name], []⟩) (by rw [hk]; rfl)
  have inner := h.kept_roles (s := s) hform (fun c => Position.child s n c (.declarator d)) [.value]
    (fun _ => .expression d) rfl (by decide) (by simp +contextual [Position.child])
    (fun c hc => by simp_all [Position.child])
  rw [kept_list rfl, inner]
  simp

end Statements

/-! ## Members -/

theorem Node.kept_outside (s : Source) (n : Node) : n.kept s .outside = [] :=
  kept_dead n trivial

/-- the declarators hold all that is kept of a declaration of fields -/
theorem Node.kept_fields (s : Source) (n : Node) :
    n.kept s .fields = (n.childrenIn .declarator).flatMap (·.kept s (.declarator 0)) := by
  rw [kept_list rfl,
    ← flatMap_filter_of_nil (p := (·.role == some .declarator)) fun c _ hr => ?_]
  · refine List.flatMap_congr fun c hc => ?_
    have hr : c.role = some .declarator := by simpa using (List.mem_filter.1 hc).2
    rw [Position.child, if_pos hr]
  · rw [Position.child, if_neg (by simpa using hr), kept_outside]

theorem Node.Shaped.kept_type (h : n.Shaped) (hk : n.kind.isTypeDeclaration = true) :
    n.kept s .type = n.keptIn s .body .members := by
  have inner := h.kept_roles (s := s) (h.form (NodeKind.form_of_type hk)) (fun c => Position.child s n c .type) [.body]
    (fun _ => .members) rfl (by decide) (by simp +contextual [Position.child])
    (fun c hc => Or.inl (by simp_all [Position.child, Position.Dead]))
  rw [kept_list rfl, inner]
  simp

theorem Node.Shaped.kept_routine (h : n.Shaped)
    (hk : n.kind = .methodDeclaration ∨ n.kind = .constructorDeclaration ∨ n.kind = .compactConstructorDeclaration) :
    n.kept s .routine = n.keptIn s .body (.group 0) := by
  obtain ⟨f, hf, hpicked⟩ : ∃ f, n.kind.form? = some f ∧ f.picked = [.role .body] := by
    rcases hk with hk | hk | hk <;> rw [hk] <;> exact ⟨_, rfl, rfl⟩
  have inner := h.kept_roles (s := s) (h.form hf) (fun c => Position.child s n c .routine) [.body] (fun _ => .group 0)
    hpicked (by decide) (by simp +contextual [Position.child])
    (fun c hc => Or.inl (by simp_all [Position.child, Position.Dead]))
  rw [kept_list rfl, inner]
  simp

theorem Node.Shaped.kept_constant (h : n.Shaped) (hk : n.kind = .enumConstant) :
    n.kept s .constant = n.keptIn s .arguments (.group 0) ++ n.keptIn s .body (.group 0) := by
  have hform := h.form (f := ⟨[.role .arguments, .role .body], [], []⟩) (by rw [hk]; rfl)
  have inner := h.kept_roles (s := s) hform (fun c => Position.child s n c .constant) [.arguments, .body]
    (fun _ => .group 0) rfl (by decide) (by simp +contextual [Position.child])
    (fun c hc => Or.inl (by simp_all [Position.child, Position.Dead]))
  rw [kept_list rfl, inner]
  simp

end CallLint
