/-
The events of a body stand as the nodes of its tree do. At each level the events of a node lie between its ends, the scopes
around each of them are the nodes around it that open scopes, and they are well apart (`Laid`): an event of one child comes
before those of the next. Only the arguments of a call come before the receiver that stands before them; they leave no
variable, for what is plain is quiet.
-/
import CallLint.Proofs.CallSites.Order
import CallLint.Proofs.Grammar.Contents
import CallLint.Proofs.Scopes.Traces

namespace CallLint

/-! ## Kinds that open scopes -/

namespace NodeKind

theorem opensScope_plain {k : NodeKind} (h : k.content = .plain) : k.opensScope = false := by
  revert h
  cases k <;> decide

theorem opensScope_other {k : NodeKind} (h : k.content = .other) : k.opensScope = false := by
  revert h
  cases k <;> decide

theorem opensScope_arguments {k : NodeKind} (h : k.content = .arguments) : k.opensScope = false := by
  revert h
  cases k <;> decide

theorem opensScope_closed {k : NodeKind} (h : k.isClosed = true) : k.opensScope = false := by
  revert h
  cases k <;> decide

theorem isClosed_of_plain {k : NodeKind} (h : k.content.isPlain = true) (hne : k ≠ .lambdaExpression) :
    k.isClosed = true := by
  revert h hne
  cases k <;> decide

theorem isPlain_of_isExpression {k : NodeKind} (h : k.isExpression = true) : k.content.isPlain = true := by
  revert h
  cases k <;> decide

theorem eq_argumentList {k : NodeKind} (h : k.content = .arguments) : k = .argumentList := by
  revert h
  cases k <;> decide

theorem opensScope_body {k : NodeKind} (h : k.content = .scoped ∨ k.content = .members) : k.opensScope = true := by
  revert h
  cases k <;> decide

/-- the kinds of scopes in expressions -/
theorem scoped_kinds {k : NodeKind} (h : k.content = .scoped) :
    k ∈ [.methodDeclaration, .constructorDeclaration, .block, .constructorBody, .classBody, .switchBlock, .forStatement,
      .enhancedForStatement, .catchClause, .tryWithResourcesStatement] := by
  revert h
  cases k <;> decide

/-- the kinds that open scopes -/
theorem opensScope_kinds {k : NodeKind} (h : k.opensScope = true) :
    k ∈ [.methodDeclaration, .constructorDeclaration, .block, .constructorBody, .classBody, .switchBlock, .forStatement,
      .enhancedForStatement, .catchClause, .tryWithResourcesStatement] ∨ k = .lambdaExpression ∨ k.content = .members := by
  revert h
  cases k <;> decide

end NodeKind

/-! ## Places in a tree -/

/-- the node is one of a tree that the grammar gives, below its root -/
structure Node.Lawful (n : Node) : Prop where
  shaped : n.Shaped
  inOrder : n.InOrder
  regular : n.Regular
  nonempty : n.start < n.stop

/-- the node stands in a tree, and these are the scopes around it -/
structure Node.Stands (n top : Node) (scopes : List Node) : Prop extends n.Lawful where
  around : top.Around (n.opened scopes) n

namespace Node

variable {n c top : Node} {scopes : List Node}

theorem opened_of_open (h : n.kind.opensScope = true) (scopes : List Node) : n.opened scopes = n :: scopes :=
  if_pos h

theorem opened_of_closed (h : n.kind.opensScope = false) (scopes : List Node) : n.opened scopes = scopes :=
  if_neg (by simp [h])

theorem Lawful.child (h : n.Lawful) (hc : c ∈ n.children) : c.Lawful where
  shaped := h.shaped.child hc
  inOrder := h.inOrder.child hc
  regular := h.regular.child hc
  nonempty := (h.inOrder.children.mem hc).2.1

theorem Lawful.stands (h : n.Lawful) : n.Stands n [] :=
  ⟨h, .top⟩

theorem Stands.child (h : n.Stands top scopes) (hc : c ∈ n.children) : c.Stands top (n.opened scopes) :=
  ⟨h.toLawful.child hc, .child h.around hc⟩

/-- what stands in a node that opens no scope has the same scopes around it -/
theorem Stands.part (h : n.Stands top scopes) (hn : n.kind.opensScope = false) (hc : c ∈ n.children) :
    c.Stands top scopes := by
  have := h.child hc
  rwa [opened_of_closed hn] at this

theorem Stands.inside (h : n.Stands top scopes) (hn : n.kind.opensScope = true) (hc : c ∈ n.children) :
    c.Stands top (n :: scopes) := by
  have := h.child hc
  rwa [opened_of_open hn] at this

end Node

/-! ## Events in order -/

/-- the events lie between two offsets, well apart, each at its place in the tree -/
structure Laid (s : Source) (top : Node) (scopes : List Node) (lo hi : Nat) (es : List Event) : Prop where
  arranged : ∀ e ∈ es, e.Arranged s top scopes
  clear : es.Pairwise Event.Clear
  within : ∀ e ∈ es, lo ≤ e.start ∧ e.stop ≤ hi

/-- the events leave no variable -/
def Quiet (es : List Event) : Prop :=
  ∀ e ∈ es, e.isDeclaration = false

theorem Quiet.append {es fs : List Event} (h : Quiet es) (k : Quiet fs) : Quiet (es ++ fs) :=
  fun e he => (List.mem_append.1 he).elim (h e) (k e)

theorem Quiet.flatMap {α : Type} {l : List α} {f : α → List Event} (h : ∀ a ∈ l, Quiet (f a)) : Quiet (l.flatMap f) := by
  intro e he
  obtain ⟨a, ha, he⟩ := List.mem_flatMap.1 he
  exact h a ha e he

theorem quiet_scope (n : Node) (es : List Event) : Quiet [.scope n es] := by
  simp [Quiet, Event.isDeclaration]

namespace Laid

variable {s : Source} {top : Node} {scopes : List Node} {lo mid hi lo' hi' : Nat} {es fs : List Event}

theorem nil (s : Source) (top : Node) (scopes : List Node) (lo hi : Nat) : Laid s top scopes lo hi [] :=
  ⟨by simp, .nil, by simp⟩

theorem mono (h : Laid s top scopes lo hi es) (hlo : lo' ≤ lo) (hhi : hi ≤ hi') : Laid s top scopes lo' hi' es :=
  ⟨h.arranged, h.clear, fun e he => ⟨hlo.trans (h.within e he).1, (h.within e he).2.trans hhi⟩⟩

/-- events before an offset, and events after it -/
theorem append (h : Laid s top scopes lo mid es) (k : Laid s top scopes mid hi fs) (hlo : lo ≤ mid) (hhi : mid ≤ hi) :
    Laid s top scopes lo hi (es ++ fs) where
  arranged e he := (List.mem_append.1 he).elim (h.arranged e) (k.arranged e)
  clear := List.pairwise_append.2
    ⟨h.clear, k.clear, fun e he f hf => .inl ((h.within e he).2.trans (k.within f hf).1)⟩
  within e he := by
    rcases List.mem_append.1 he with he | he
    · exact ⟨(h.within e he).1, (h.within e he).2.trans hhi⟩
    · exact ⟨hlo.trans (k.within e he).1, (k.within e he).2⟩

/-- events of two nodes that stand apart, whichever comes first, when they leave no variables -/
theorem both {a b : Node} (h : Laid s top scopes a.start a.stop es) (k : Laid s top scopes b.start b.stop fs)
    (hq : Quiet es) (kq : Quiet fs) (happart : a.stop ≤ b.start ∨ b.stop ≤ a.start) (ha : lo ≤ a.start ∧ a.stop ≤ hi)
    (hb : lo ≤ b.start ∧ b.stop ≤ hi) : Laid s top scopes lo hi (es ++ fs) := by
  refine ⟨fun e he => (List.mem_append.1 he).elim (h.arranged e) (k.arranged e),
    List.pairwise_append.2 ⟨h.clear, k.clear, fun e he f hf => ?_⟩, fun e he => ?_⟩
  · exact happart.imp (fun hab => ((h.within e he).2.trans hab).trans (k.within f hf).1)
      fun hba => ⟨((k.within f hf).2.trans hba).trans (h.within e he).1, hq e he, kq f hf⟩
  · exact (List.mem_append.1 he).elim ((h.mono ha.1 ha.2).within e) ((k.mono hb.1 hb.2).within e)

theorem use {n : Node} (h : top.Around scopes n) (hk : n.kind = .identifier) (hne : n.start < n.stop) :
    Laid s top scopes n.start n.stop [.use (s.textOf n) n] where
  arranged e he := by
    obtain rfl := List.mem_singleton.1 he
    exact .use h hk hne
  clear := List.pairwise_singleton _ _
  within e he := by
    obtain rfl := List.mem_singleton.1 he
    exact ⟨le_rfl, le_rfl⟩

theorem declare {v : Declared} (h : top.Around scopes v.node) (hw : v.Written s scopes) (hlo : lo ≤ v.since)
    (hhi : v.since ≤ hi) : Laid s top scopes lo hi [.declare v] where
  arranged e he := by
    obtain rfl := List.mem_singleton.1 he
    exact .declare h hw
  clear := List.pairwise_singleton _ _
  within e he := by
    obtain rfl := List.mem_singleton.1 he
    exact ⟨hlo, hhi⟩

theorem scope {n : Node} (hne : n.start < n.stop) (h : Laid s top (n :: scopes) n.start n.stop es) :
    Laid s top scopes n.start n.stop [.scope n es] where
  arranged e he := by
    obtain rfl := List.mem_singleton.1 he
    exact .scope hne h.clear h.within h.arranged
  clear := List.pairwise_singleton _ _
  within e he := by
    obtain rfl := List.mem_singleton.1 he
    exact ⟨le_rfl, le_rfl⟩

/-- events of nodes that follow one another -/
theorem flatMap {ns : List Node} {f : Node → List Event} (hb : Between lo ns hi)
    (h : ∀ n ∈ ns, Laid s top scopes n.start n.stop (f n)) : Laid s top scopes lo hi (ns.flatMap f) := by
  induction ns generalizing lo with
  | nil => exact .nil _ _ _ _ _
  | cons n ns ih =>
    obtain ⟨hlo, hne, hrest⟩ := hb
    rw [List.flatMap_cons]
    exact ((h n List.mem_cons_self).mono hlo le_rfl).append (ih hrest fun m hm => h m (List.mem_cons_of_mem _ hm))
      (hlo.trans hne.le) hrest.le

/-- variables that may all be named from one offset on -/
theorem declarations {α : Type} {l : List α} {f : α → Declared} (h : ∀ a ∈ l, top.Around scopes (f a).node)
    (hw : ∀ a ∈ l, (f a).Written s scopes) (hsince : ∀ a ∈ l, (f a).since = lo) :
    Laid s top scopes lo lo (l.map fun a => .declare (f a)) := by
  induction l with
  | nil => exact .nil _ _ _ _ _
  | cons a l ih =>
    have first : Laid s top scopes lo lo [.declare (f a)] :=
      .declare (h a List.mem_cons_self) (hw a List.mem_cons_self) (hsince a List.mem_cons_self).ge
        (hsince a List.mem_cons_self).le
    have others := ih (fun b hb => h b (List.mem_cons_of_mem _ hb)) (fun b hb => hw b (List.mem_cons_of_mem _ hb))
      fun b hb => hsince b (List.mem_cons_of_mem _ hb)
    exact first.append others le_rfl le_rfl

end Laid

/-! ## Nodes and their children -/

theorem Node.InOrder.namedChildren {n : Node} (h : n.InOrder) : Between n.start n.namedChildren n.stop :=
  h.children.sublist List.filter_sublist

theorem Node.InOrder.childrenIn {n : Node} (h : n.InOrder) (r : Role) : Between n.start (n.childrenIn r) n.stop :=
  h.children.sublist List.filter_sublist

/-- children in different roles are apart -/
theorem Node.InOrder.apart_roles {n a b : Node} (h : n.InOrder) {r r' : Role} (ha : n.child? r = some a)
    (hb : n.child? r' = some b) (hne : r ≠ r') : a.stop ≤ b.start ∨ b.stop ≤ a.start := by
  refine h.children.apart (Node.child?_mem ha) (Node.child?_mem hb) ?_
  rintro rfl
  exact hne (Option.some.inj ((Node.child?_role ha).symm.trans (Node.child?_role hb)))

theorem pair_sublist {α : Type} {l : List α} {a b : α} (ha : a ∈ l) (hb : b ∈ l) (hne : a ≠ b) :
    [a, b].Sublist l ∨ [b, a].Sublist l := by
  induction l with
  | nil => simp at ha
  | cons x l ih =>
    rcases List.mem_cons.1 ha with rfl | hal <;> rcases List.mem_cons.1 hb with rfl | hbl
    · exact absurd rfl hne
    · exact .inl ((List.singleton_sublist.2 hbl).cons_cons a)
    · exact .inr ((List.singleton_sublist.2 hal).cons_cons b)
    · exact (ih hal hbl).imp (·.cons x) (·.cons x)

/-- a loop over values names what it loops over before its body -/
theorem Node.Shaped.enhancedFor_order {n value body : Node} (h : n.Shaped) (ho : n.InOrder)
    (hk : n.kind = .enhancedForStatement) (hv : n.child? .value = some value) (hb : n.child? .body = some body) :
    value.stop ≤ body.start := by
  have code {m : Node} {r : Role} (hm : n.child? r = some m) : m ∈ codeNodes n.children := by
    refine mem_codeNodes.2 ⟨Node.child?_mem hm, ?_⟩
    by_contra hc
    have hrole := (h.child (Node.child?_mem hm)).comment_role (by simpa using hc)
    rw [Node.child?_role hm] at hrole
    cases hrole
  have hvs := (value.slot_eq_role .value).2 (Node.child?_role hv)
  have hbs := (body.slot_eq_role .body).2 (Node.child?_role hb)
  have hne : value ≠ body := by
    rintro rfl
    rw [hvs] at hbs
    cases hbs
  have between : Between n.start (codeNodes n.children) n.stop := ho.children.sublist List.filter_sublist
  rcases pair_sublist (code hv) (code hb) hne with hsub | hsub
  · exact (between.sublist hsub).2.2.1
  · have order := (h.form (f := ⟨[.role .value, .role .body], [], []⟩) (by rw [hk]; rfl)).order
    have slots := ((hsub.map Node.slot).filter (· ∈ [ChildSlot.role .value, .role .body])).trans order
    simp only [List.map_cons, List.map_nil, hvs, hbs] at slots
    exact absurd (List.isSublist_iff_sublist.2 slots) (by decide)

/-! ## What is plain is quiet -/

/-- the nodes of expressions leave no variables, and neither do those that open scopes -/
structure Trace.IsQuiet (t : Trace) : Prop where
  splice : ∀ n : Node, n.Regular → n.kind.content.isPlain = true ∨ n.kind.content = .scoped → Quiet (t.splice n)
  expression : ∀ n : Node, n.Regular → n.kind.content.isPlain = true → Quiet (t.expression n)

namespace Trace

variable {t : Trace} {s : Source} {n : Node}

theorem IsQuiet.children (h : t.IsQuiet) (hn : n.Regular) (hk : n.kind.isClosed = true) : Quiet (t.children n) :=
  .flatMap fun c hc =>
    have hc := Inner.mem_children hc
    h.splice c (hn.child hc) (hn.closed hc hk)

/-- an expression among the children of a node -/
theorem IsQuiet.part (h : t.IsQuiet) (hn : n.Regular) (hk : n.kind.holdsExpressions = true) {c : Node}
    (hc : c ∈ n.children) : Quiet (t.expression c) :=
  h.expression c (hn.child hc) (hn.expression hc hk)

theorem IsQuiet.argumentList (h : t.IsQuiet) (hn : n.Regular) (hk : n.kind.content = .arguments) :
    Quiet (n.namedChildren.flatMap t.expression) :=
  .flatMap fun _ hc => h.part hn (by rw [NodeKind.eq_argumentList hk]; rfl) (Inner.mem_children hc)

theorem IsQuiet.arguments (h : t.IsQuiet) (hn : n.Regular) (hk : n.kind.takesArguments = true) :
    Quiet (t.arguments n) := by
  unfold Trace.arguments
  cases hl : n.child? .arguments with
  | none => simp [Quiet]
  | some list =>
    have hmem := Node.child?_mem hl
    exact h.argumentList (hn.child hmem) (hn.arguments hmem (Node.child?_role hl) hk)

theorem IsQuiet.literal (h : t.IsQuiet) (hn : n.Regular) (hk : n.kind.isClosed = true) (value : Option Literal) :
    Quiet (t.literal n value) := by
  cases value with
  | none => exact h.children hn hk
  | some v => simp [Trace.literal, Quiet]

theorem IsQuiet.ofExpression (h : t.IsQuiet) (hn : n.Regular) (hk : n.kind.content.isPlain = true) :
    Quiet (t.ofExpression s n) := by
  by_cases hl : n.kind = .lambdaExpression
  · unfold Trace.ofExpression
    rw [hl]
    exact quiet_scope n _
  have closed := NodeKind.isClosed_of_plain hk hl
  have holds {k : NodeKind} (hkind : n.kind = k) (hh : k.holdsExpressions = true) : n.kind.holdsExpressions = true :=
    hkind ▸ hh
  unfold Trace.ofExpression
  split
  case h_1 hkind =>
    cases hch : n.namedChildren with
    | nil => simp [Quiet]
    | cons first rest => exact h.part hn (holds hkind rfl) (Inner.mem_children (by rw [hch]; exact List.mem_cons_self))
  case h_2 =>
    split
    · exact h.literal hn closed _
    · simp [Quiet]
  case h_3 | h_4 | h_5 | h_6 | h_7 => exact h.literal hn closed _
  case h_8 | h_9 | h_10 | h_11 => simp [Quiet]
  case h_12 => simp [Quiet, Event.isDeclaration]
  case h_13 hkind =>
    unfold Trace.fieldAccess
    split
    · exact h.part hn (holds hkind rfl) (Node.child?_mem ‹_›)
    · exact h.children hn closed
  case h_14 hkind =>
    unfold Trace.binary
    split
    · exact (h.part hn (holds hkind rfl) (Node.child?_mem ‹n.child? .left = _›)).append
        (h.part hn (holds hkind rfl) (Node.child?_mem ‹n.child? .right = _›))
    · exact h.children hn closed
  case h_15 hkind =>
    refine (h.arguments hn (by rw [hkind]; rfl)).append ?_
    split
    · exact h.part hn (holds hkind rfl) (Node.child?_mem ‹_›)
    · simp [Quiet]
  case h_16 hkind =>
    refine (h.arguments hn (by rw [hkind]; rfl)).append ?_
    split
    · exact quiet_scope _ _
    · simp [Quiet]
  case h_17 hkind => exact absurd hkind hl
  case h_18 => exact h.children hn closed

theorem IsQuiet.ofStatement (h : t.IsQuiet) (hn : n.Regular) (hk : n.kind.content.isPlain = true ∨ n.kind.content = .scoped) :
    Quiet (t.ofStatement s n) := by
  rcases hk with hk | hk
  · unfold Trace.ofStatement
    split
    case h_1 | h_2 | h_3 | h_4 | h_5 => simp [Quiet]
    case h_21 =>
      split_ifs with htype hexpr
      · exact absurd hk (by revert htype; cases n.kind <;> decide)
      · exact h.expression n hn hk
      · refine h.children hn (NodeKind.isClosed_of_plain hk ?_)
        intro hl
        exact hexpr (by rw [hl]; rfl)
    -- no other kind is plain
    all_goals
      rename_i hkind
      rw [hkind] at hk
      exact absurd hk (by decide)
  · have kinds := NodeKind.scoped_kinds hk
    unfold Trace.ofStatement
    simp only [List.mem_cons, List.not_mem_nil, or_false] at kinds
    rcases kinds with hkind | hkind | hkind | hkind | hkind | hkind | hkind | hkind | hkind | hkind
    all_goals
      rw [hkind]
      exact quiet_scope n _

theorem ofLevels_quiet (s : Source) (levels : Nat) : (ofLevels s levels).IsQuiet := by
  induction levels with
  | zero => exact ⟨fun _ _ _ => by simp [ofLevels, Quiet], fun _ _ _ => by simp [ofLevels, Quiet]⟩
  | succ levels ih => exact ⟨fun _ hn hk => ih.ofStatement hn hk, fun _ hn hk => ih.ofExpression hn hk⟩

end Trace

/-! ## Events at their places -/

/-- the events of the nodes inside a node lie in these nodes, at their places in the tree -/
structure Trace.Keeps (t : Trace) (s : Source) (top : Node) : Prop where
  quiet : t.IsQuiet
  splice : ∀ (n : Node) (scopes : List Node), n.Stands top scopes → n.kind.content ≠ .members →
    Laid s top scopes n.start n.stop (t.splice n)
  expression : ∀ (n : Node) (scopes : List Node), n.Stands top scopes → n.kind.content.isPlain = true →
    Laid s top scopes n.start n.stop (t.expression n)

namespace Trace

variable {t : Trace} {s : Source} {top n c : Node} {scopes : List Node}

theorem Keeps.children (h : t.Keeps s top) (hn : n.Stands top scopes) (hk : n.kind.isTypeDeclaration = false) :
    Laid s top (n.opened scopes) n.start n.stop (t.children n) :=
  .flatMap hn.inOrder.namedChildren fun c hc =>
    have hc := Inner.mem_children hc
    h.splice c _ (hn.child hc) (hn.regular.members hc hk)

/-- the children of a node that opens no scope -/
theorem Keeps.group (h : t.Keeps s top) (hn : n.Stands top scopes) (hk : n.kind.isTypeDeclaration = false)
    (hopen : n.kind.opensScope = false) : Laid s top scopes n.start n.stop (t.children n) := by
  have := h.children hn hk
  rwa [Node.opened_of_closed hopen] at this

theorem Keeps.scope (h : t.Keeps s top) (hn : n.Stands top scopes) (hk : n.kind.isTypeDeclaration = false)
    (hopen : n.kind.opensScope = true) : Laid s top scopes n.start n.stop [.scope n (t.children n)] := by
  refine .scope hn.nonempty ?_
  have := h.children hn hk
  rwa [Node.opened_of_open hopen] at this

theorem Keeps.child (h : t.Keeps s top) (hn : n.Stands top scopes) (hk : n.kind.isTypeDeclaration = false) {r : Role}
    (hc : n.child? r = some c) : Laid s top (n.opened scopes) c.start c.stop (t.splice c) :=
  have hc := Node.child?_mem hc
  h.splice c _ (hn.child hc) (hn.regular.members hc hk)

/-- an expression among the children of a node -/
theorem Keeps.part (h : t.Keeps s top) (hn : n.Stands top scopes) (hk : n.kind.holdsExpressions = true)
    (hc : c ∈ n.children) : Laid s top scopes c.start c.stop (t.expression c) := by
  have hopen : n.kind.opensScope = false := by
    revert hk
    cases n.kind <;> decide
  exact h.expression c scopes (hn.part hopen hc) (hn.regular.expression hc hk)

/-- the ends of a child lie between those of its parent -/
theorem inside (hn : n.Stands top scopes) (hc : c ∈ n.children) : n.start ≤ c.start ∧ c.stop ≤ n.stop :=
  have := hn.inOrder.children.mem hc
  ⟨this.1, this.2.2⟩

theorem Keeps.argumentList (h : t.Keeps s top) (hn : n.Stands top scopes) (hk : n.kind.content = .arguments) :
    Laid s top scopes n.start n.stop (n.namedChildren.flatMap t.expression) :=
  .flatMap hn.inOrder.namedChildren fun _ hc =>
    h.part hn (by rw [NodeKind.eq_argumentList hk]; rfl) (Inner.mem_children hc)

/-- arguments, and then other events without variables from another child of a call -/
theorem Keeps.arguments (h : t.Keeps s top) (hn : n.Stands top scopes) (hk : n.kind.takesArguments = true)
    (hopen : n.kind.opensScope = false) {es : List Event} (hc : c ∈ n.children) (hne : c.role ≠ some .arguments)
    (hes : Laid s top scopes c.start c.stop es) (hq : Quiet es) :
    Laid s top scopes n.start n.stop (t.arguments n ++ es) := by
  unfold Trace.arguments
  cases hl : n.child? .arguments with
  | none => exact hes.mono (inside hn hc).1 (inside hn hc).2
  | some list =>
    have hmem := Node.child?_mem hl
    have hrole := Node.child?_role hl
    have content := hn.regular.arguments hmem hrole hk
    have happart := hn.inOrder.children.apart hmem hc (by rintro rfl; exact hne hrole)
    exact (h.argumentList (hn.part hopen hmem) content).both hes
      (h.quiet.argumentList (hn.regular.child hmem) content) hq happart (inside hn hmem) (inside hn hc)

/-- arguments alone -/
theorem Keeps.onlyArguments (h : t.Keeps s top) (hn : n.Stands top scopes) (hk : n.kind.takesArguments = true)
    (hopen : n.kind.opensScope = false) : Laid s top scopes n.start n.stop (t.arguments n) := by
  unfold Trace.arguments
  cases hl : n.child? .arguments with
  | none => exact .nil _ _ _ _ _
  | some list =>
    have hmem := Node.child?_mem hl
    have content := hn.regular.arguments hmem (Node.child?_role hl) hk
    exact (h.argumentList (hn.part hopen hmem) content).mono (inside hn hmem).1 (inside hn hmem).2

theorem Keeps.methodInvocation (h : t.Keeps s top) (hn : n.Stands top scopes) (hk : n.kind = .methodInvocation) :
    Laid s top scopes n.start n.stop (t.methodInvocation n) := by
  have takes : n.kind.takesArguments = true := by rw [hk]; rfl
  have hopen : n.kind.opensScope = false := by rw [hk]; rfl
  have holds : n.kind.holdsExpressions = true := by rw [hk]; rfl
  unfold Trace.methodInvocation
  cases ho : n.child? .object with
  | none => simpa using h.onlyArguments hn takes hopen
  | some object =>
    have hmem := Node.child?_mem ho
    refine h.arguments hn takes hopen hmem ?_ (h.part hn holds hmem) (h.quiet.part hn.regular holds hmem)
    rw [Node.child?_role ho]
    decide

theorem Keeps.objectCreation (h : t.Keeps s top) (hn : n.Stands top scopes) (hk : n.kind = .objectCreationExpression) :
    Laid s top scopes n.start n.stop (t.objectCreation n) := by
  have takes : n.kind.takesArguments = true := by rw [hk]; rfl
  have hopen : n.kind.opensScope = false := by rw [hk]; rfl
  unfold Trace.objectCreation
  cases hb : n.childOfKind? .classBody with
  | none => simpa using h.onlyArguments hn takes hopen
  | some body =>
    have hmem : body ∈ n.children := List.mem_of_find?_eq_some hb
    have hkind : body.kind = .classBody := by simpa using List.find?_some hb
    refine h.arguments hn takes hopen hmem (fun hrole => ?_) ?_ (quiet_scope _ _)
    · have := hn.regular.arguments hmem hrole takes
      rw [hkind] at this
      exact absurd this (by decide)
    · exact h.scope (hn.part hopen hmem) (by rw [hkind]; rfl) (by rw [hkind]; rfl)

theorem Keeps.fieldAccess (h : t.Keeps s top) (hn : n.Stands top scopes) (hk : n.kind = .fieldAccess) :
    Laid s top scopes n.start n.stop (t.fieldAccess n) := by
  have holds : n.kind.holdsExpressions = true := by rw [hk]; rfl
  unfold Trace.fieldAccess
  split
  · have hmem := Node.child?_mem ‹n.child? .object = _›
    exact (h.part hn holds hmem).mono (inside hn hmem).1 (inside hn hmem).2
  · exact h.group hn (by rw [hk]; rfl) (by rw [hk]; rfl)

theorem Keeps.binary (h : t.Keeps s top) (hn : n.Stands top scopes) (hk : n.kind = .binaryExpression) :
    Laid s top scopes n.start n.stop (t.binary n) := by
  have holds : n.kind.holdsExpressions = true := by rw [hk]; rfl
  unfold Trace.binary
  split
  · have hleft := ‹n.child? .left = _›
    have hright := ‹n.child? .right = _›
    have hl := Node.child?_mem hleft
    have hr := Node.child?_mem hright
    exact (h.part hn holds hl).both (h.part hn holds hr) (h.quiet.part hn.regular holds hl)
      (h.quiet.part hn.regular holds hr) (hn.inOrder.apart_roles hleft hright (by decide)) (inside hn hl) (inside hn hr)
  · exact h.group hn (by rw [hk]; rfl) (by rw [hk]; rfl)

/-! ## Variables -/

/-- parameters stand in the scope of what they are parameters of -/
theorem parameters_laid {list : Node} (hn : n.Stands top scopes) (hopen : n.kind.opensScope = true)
    (hl : n.child? .parameters = some list) :
    list.Stands top (n :: scopes) ∧ list.kind.opensScope = false ∧
      Laid s top (n :: scopes) n.start n.start (parameters s n list) := by
  have hmem := Node.child?_mem hl
  have stands := hn.inside hopen hmem
  have closed : list.kind.opensScope = false :=
    (hn.regular.parameters hmem (Node.child?_role hl)).2.elim NodeKind.opensScope_plain NodeKind.opensScope_other
  have around := stands.around
  rw [Node.opened_of_closed closed] at around
  exact ⟨stands, closed, .declarations (fun _ _ => around) (fun _ hp => .parameter rfl hl hp) fun _ _ => rfl⟩

theorem parametersOf_laid (hn : n.Stands top scopes) (hopen : n.kind.opensScope = true) :
    Laid s top (n :: scopes) n.start n.start (parametersOf s n) := by
  unfold Trace.parametersOf
  split
  · exact (parameters_laid hn hopen ‹_›).2.2
  · exact .nil _ _ _ _ _

theorem lambdaParameters_laid (hn : n.Stands top scopes) (hopen : n.kind.opensScope = true) :
    Laid s top (n :: scopes) n.start n.start (lambdaParameters s n) := by
  unfold Trace.lambdaParameters
  split
  · exact .nil _ _ _ _ _
  · rename_i list hl
    obtain ⟨stands, closed, laid⟩ := parameters_laid (s := s) hn hopen hl
    split
    · have around := stands.around
      rw [Node.opened_of_closed closed] at around
      exact .declare around (.inferred rfl hl (.inl rfl)) le_rfl le_rfl
    · rename_i hkind
      refine .declarations (fun p hp => ?_) (fun _ hp => .inferred rfl hl (.inr hp)) fun _ _ => rfl
      have hp := Inner.mem_children hp
      have around := (stands.part closed hp).around
      rwa [Node.opened_of_closed (NodeKind.opensScope_plain (stands.regular.inferred hp hkind))] at around
    · exact laid

/-- a routine: parameters, and then the body -/
theorem Keeps.routine (h : t.Keeps s top) (hn : n.Stands top scopes) (hopen : n.kind.opensScope = true) {es : List Event}
    (hes : Laid s top (n :: scopes) n.start n.start es) : Laid s top scopes n.start n.stop [.scope n (es ++ t.child n .body)] := by
  have hk : n.kind.isTypeDeclaration = false := by
    revert hopen
    cases n.kind <;> decide
  refine .scope hn.nonempty (hes.append ?_ le_rfl hn.nonempty.le)
  unfold Trace.child
  split
  · rename_i body hb
    have laid := h.child hn hk hb
    rw [Node.opened_of_open hopen] at laid
    have hin := inside hn (Node.child?_mem hb)
    exact laid.mono hin.1 hin.2
  · exact .nil _ _ _ _ _

/-! ## All constructs -/

theorem Keeps.literal (h : t.Keeps s top) (hn : n.Stands top scopes) (hk : n.kind.isTypeDeclaration = false)
    (hopen : n.kind.opensScope = false) (value : Option Literal) :
    Laid s top scopes n.start n.stop (t.literal n value) := by
  cases value with
  | none => exact h.group hn hk hopen
  | some v => exact .nil _ _ _ _ _

theorem Keeps.ofExpression (h : t.Keeps s top) (hn : n.Stands top scopes) (hk : n.kind.content.isPlain = true) :
    Laid s top scopes n.start n.stop (t.ofExpression s n) := by
  have type : n.kind.isTypeDeclaration = false := by
    revert hk
    cases n.kind <;> decide
  by_cases hl : n.kind = .lambdaExpression
  · have hopen : n.kind.opensScope = true := by rw [hl]; rfl
    have laid := h.routine hn hopen (lambdaParameters_laid (s := s) hn hopen)
    unfold Trace.ofExpression
    rw [hl]
    exact laid
  have hopen := NodeKind.opensScope_closed (NodeKind.isClosed_of_plain hk hl)
  unfold Trace.ofExpression
  split
  case h_1 hkind =>
    cases hch : n.namedChildren with
    | nil => exact .nil _ _ _ _ _
    | cons first rest =>
      have hmem : first ∈ n.children := Inner.mem_children (by rw [hch]; exact List.mem_cons_self)
      exact (h.part hn (by rw [hkind]; rfl) hmem).mono (inside hn hmem).1 (inside hn hmem).2
  case h_2 =>
    split
    · exact h.literal hn type hopen _
    · exact .nil _ _ _ _ _
  case h_3 | h_4 | h_5 | h_6 | h_7 => exact h.literal hn type hopen _
  case h_8 | h_9 | h_10 | h_11 => exact .nil _ _ _ _ _
  case h_12 hkind =>
    have around := hn.around
    rw [Node.opened_of_closed hopen] at around
    exact .use around hkind hn.nonempty
  case h_13 hkind => exact h.fieldAccess hn hkind
  case h_14 hkind => exact h.binary hn hkind
  case h_15 hkind => exact h.methodInvocation hn hkind
  case h_16 hkind => exact h.objectCreation hn hkind
  case h_17 hkind => exact absurd hkind hl
  case h_18 => exact h.group hn type hopen

theorem Keeps.declarator (h : t.Keeps s top) (hn : n.Stands top scopes) (hk : n.kind = .variableDeclarator) :
    Laid s top scopes n.start n.stop (t.declarator s n) := by
  have around := hn.around
  rw [Node.opened_of_closed (by rw [hk]; rfl)] at around
  unfold Trace.declarator
  split
  · exact .nil _ _ _ _ _
  · rename_i name hname
    refine .append ?_ (.declare around (.declaration (.inl hk) hname) le_rfl le_rfl) hn.nonempty.le le_rfl
    split
    · have hmem := Node.child?_mem ‹n.child? .value = _›
      exact (h.part hn (by rw [hk]; rfl) hmem).mono (inside hn hmem).1 (inside hn hmem).2
    · exact .nil _ _ _ _ _

theorem Keeps.localDeclaration (h : t.Keeps s top) (hn : n.Stands top scopes)
    (hk : n.kind = .localVariableDeclaration ∨ n.kind = .fieldDeclaration) :
    Laid s top scopes n.start n.stop ((n.childrenIn .declarator).flatMap (t.declarator s)) := by
  have hopen : n.kind.opensScope = false := by rcases hk with hk | hk <;> (rw [hk]; rfl)
  refine .flatMap (hn.inOrder.childrenIn .declarator) fun m hm => ?_
  obtain ⟨hmem, hrole⟩ := List.mem_filter.1 hm
  have hkind : m.kind = .variableDeclarator := by
    rcases hn.shaped.declared (hk.imp id .inl) hmem with hd | hd
    · exact hd.2
    · exact absurd (beq_iff_eq.1 hrole) hd.1
  exact h.declarator (hn.part hopen hmem) hkind

theorem Keeps.enhancedFor (h : t.Keeps s top) (hn : n.Stands top scopes) (hk : n.kind = .enhancedForStatement) :
    Laid s top scopes n.start n.stop [.scope n (t.enhancedFor s n)] := by
  have hopen : n.kind.opensScope = true := by rw [hk]; rfl
  have type : n.kind.isTypeDeclaration = false := by rw [hk]; rfl
  have around := hn.around
  rw [Node.opened_of_open hopen] at around
  refine .scope hn.nonempty ?_
  -- the variable is declared where the value ends
  let since := ((n.child? .value).map (·.stop)).getD n.start
  have bounds : n.start ≤ since ∧ since ≤ n.stop := by
    cases hv : n.child? .value with
    | none => simp [since, hv, hn.nonempty.le]
    | some value =>
      have hin := hn.inOrder.children.mem (Node.child?_mem hv)
      simpa [since, hv] using ⟨hin.1.trans hin.2.1.le, hin.2.2⟩
  have value : Laid s top (n :: scopes) n.start since (t.child n .value) := by
    unfold Trace.child
    split
    · rename_i value hv
      have laid := h.child hn type hv
      rw [Node.opened_of_open hopen] at laid
      exact laid.mono (inside hn (Node.child?_mem hv)).1 (by simp [since, hv])
    · exact .nil _ _ _ _ _
  have body : Laid s top (n :: scopes) since n.stop (t.child n .body) := by
    unfold Trace.child
    split
    · rename_i body hb
      have laid := h.child hn type hb
      rw [Node.opened_of_open hopen] at laid
      have hin := inside hn (Node.child?_mem hb)
      refine laid.mono ?_ hin.2
      cases hv : n.child? .value with
      | none => simpa [since, hv] using hin.1
      | some value => simpa [since, hv] using hn.shaped.enhancedFor_order hn.inOrder hk hv hb
    · exact .nil _ _ _ _ _
  refine value.append (.append ?_ body le_rfl bounds.2) bounds.1 bounds.2
  split
  · rename_i name hname
    exact .declare around (.loop hk hname) le_rfl le_rfl
  · exact .nil _ _ _ _ _

theorem Keeps.resource (h : t.Keeps s top) (hn : n.Stands top scopes) (hk : n.kind = .resource) :
    Laid s top scopes n.start n.stop (t.resource s n) := by
  have hopen : n.kind.opensScope = false := by rw [hk]; rfl
  have around := hn.around
  rw [Node.opened_of_closed hopen] at around
  unfold Trace.resource
  split
  · rename_i name part hname hvalue
    have hmem := Node.child?_mem hvalue
    have value := (h.part hn (by rw [hk]; rfl) hmem).mono (inside hn hmem).1 (inside hn hmem).2
    exact value.append (.declare around (.declaration (.inr (.inl hk)) hname) le_rfl le_rfl) hn.nonempty.le le_rfl
  · exact h.group hn (by rw [hk]; rfl) hopen

theorem Keeps.localType (h : t.Keeps s top) (hn : n.Stands top scopes) (hk : n.kind.isTypeDeclaration = true) :
    Laid s top scopes n.start n.stop (t.localType n) := by
  have hopen : n.kind.opensScope = false := by
    revert hk
    cases n.kind <;> decide
  have hasBody : n.kind.hasBody = true := by
    revert hk
    cases n.kind <;> decide
  unfold Trace.localType
  split
  · rename_i body hb
    have hmem := Node.child?_mem hb
    have content := hn.regular.body hmem (Node.child?_role hb) hasBody
    have type : body.kind.isTypeDeclaration = false := by
      revert content
      cases body.kind <;> decide
    have laid := h.scope (hn.part hopen hmem) type (NodeKind.opensScope_body content)
    exact laid.mono (inside hn hmem).1 (inside hn hmem).2
  · exact .nil _ _ _ _ _

theorem Keeps.ofStatement (h : t.Keeps s top) (hn : n.Stands top scopes) (hk : n.kind.content ≠ .members) :
    Laid s top scopes n.start n.stop (t.ofStatement s n) := by
  unfold Trace.ofStatement
  split
  case h_1 | h_2 | h_3 | h_4 | h_5 => exact .nil _ _ _ _ _
  case h_6 hkind | h_7 hkind | h_8 hkind | h_9 hkind | h_10 hkind | h_11 hkind | h_12 hkind =>
    exact h.scope hn (by rw [hkind]; rfl) (by rw [hkind]; rfl)
  case h_13 hkind => exact h.localDeclaration hn (.inl hkind)
  case h_14 hkind => exact h.localDeclaration hn (.inr hkind)
  case h_15 hkind => exact h.enhancedFor hn hkind
  case h_16 hkind =>
    have around := hn.around
    rw [Node.opened_of_closed (by rw [hkind]; rfl)] at around
    split
    · rename_i name hname
      exact .declare around (.declaration (.inr (.inr hkind)) hname) hn.nonempty.le le_rfl
    · exact .nil _ _ _ _ _
  case h_17 hkind => exact h.resource hn hkind
  case h_18 hkind | h_19 hkind =>
    have hopen : n.kind.opensScope = true := by rw [hkind]; rfl
    exact h.routine hn hopen (parametersOf_laid hn hopen)
  case h_20 hkind => exact h.onlyArguments hn (by rw [hkind]; rfl) (by rw [hkind]; rfl)
  case h_21 =>
    split_ifs with htype hexpr
    · exact h.localType hn htype
    · exact h.expression n scopes hn (NodeKind.isPlain_of_isExpression hexpr)
    · refine h.group hn (by simpa using htype) ?_
      -- each kind that opens a scope has a case above, unless it is a lambda or holds members
      by_contra hopen
      rcases NodeKind.opensScope_kinds (by simpa using hopen) with hmem | hlambda | hmembers
      · simp only [List.mem_cons, List.not_mem_nil, or_false] at hmem
        simp_all
      · exact hexpr (by rw [hlambda]; rfl)
      · exact hk hmembers

/-- **At each level the events of a node stand as the nodes of the tree do.** -/
theorem ofLevels_keeps (s : Source) (top : Node) (levels : Nat) : (ofLevels s levels).Keeps s top := by
  induction levels with
  | zero => exact ⟨ofLevels_quiet s 0, fun _ _ _ _ => .nil _ _ _ _ _, fun _ _ _ _ => .nil _ _ _ _ _⟩
  | succ levels ih =>
    exact ⟨ofLevels_quiet s (levels + 1), fun _ _ hn hk => ih.ofStatement hn hk, fun _ _ hn hk => ih.ofExpression hn hk⟩

end Trace

end CallLint
