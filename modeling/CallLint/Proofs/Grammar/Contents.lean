/-
Where statements and declarations cannot stand. A node is plain when its kind is that of an expression or of what
expressions are made of; under a plain node stand plain nodes and nodes that open a scope (`NodeKind.holds`), so a variable
that is declared in an expression lies in a scope in it. Members of types and bodies have their places as well.

`Source.tree_regular`: all nodes of a syntax tree hold what their kinds may. As for words, grammars are checked with a
table of the nonterminals, and one induction on derivations gives it for all trees.
-/
import CallLint.Proofs.Grammar.Trees

namespace CallLint

/-! ## Kinds of nodes by what they hold -/

/-- what a node may hold of variables -/
inductive Content where
  /-- only what lies in a scope in it -/
  | plain
  /-- the arguments of a call; the same, and no scope is an argument -/
  | arguments
  /-- a scope in an expression -/
  | function
  /-- a scope in which statements or members stand -/
  | scoped
  /-- a scope with the members of a type that is no class -/
  | members
  | other
deriving DecidableEq, Repr

/-- expressions and what they are made of -/
def Content.isPlain : Content → Bool
  | plain | arguments | function => true
  | _ => false

/-- how a child stands in its parent -/
abbrev Head := Option Role × Content

namespace NodeKind

/-- kinds that expressions are made of, and the types and annotations in them -/
def isExpressionPart : NodeKind → Bool
  | .dimensionsExpr | .dimensions | .stringInterpolation | .recordPattern | .recordPatternBody | .recordPatternComponent
  | .underscorePattern | .modifiers | .annotationMarker | .annotationWithArguments | .annotationArgumentList
  | .elementValuePair | .elementValueArrayInitializer | .scopedIdentifier | .typeIdentifier | .scopedTypeIdentifier
  | .genericType | .arrayType | .annotatedType | .integralType | .floatingPointType | .booleanType | .voidType
  | .typeArguments | .lineComment | .blockComment | .finalKeyword | .publicKeyword | .abstractKeyword | .staticKeyword
  | .otherModifier | .operatorMark => true
  | _ => false

def content : NodeKind → Content
  | .argumentList => .arguments
  | .lambdaExpression => .function
  | .interfaceBody | .enumBody | .annotationTypeBody => .members
  | .methodDeclaration | .constructorDeclaration | .block | .constructorBody | .classBody | .switchBlock | .forStatement
  | .enhancedForStatement | .catchClause | .tryWithResourcesStatement => .scoped
  | k => if k.isExpression || k.isExpressionPart then .plain else .other

/-- nodes of these kinds have a body that opens a scope -/
def hasBody (k : NodeKind) : Bool :=
  k.isTypeDeclaration ||
    match k with
    | .methodDeclaration | .constructorDeclaration | .compactConstructorDeclaration | .enumConstant => true
    | _ => false

def takesArguments : NodeKind → Bool
  | .methodInvocation | .objectCreationExpression | .explicitConstructorInvocation | .enumConstant => true
  | _ => false

/-- what a child holds in the role that it plays -/
def holdsInRole (k : NodeKind) (h : Head) : Bool :=
  match h.1 with
  | some .body => !k.hasBody || h.2 == .scoped || h.2 == .members
  | some .parameters => k != .compactConstructorDeclaration && (h.2 == .plain || h.2 == .other)
  | some .arguments => !k.takesArguments || h.2 == .arguments
  | _ => true

/-- all children of nodes of these kinds are parts of expressions -/
def holdsExpressions : NodeKind → Bool
  | .methodInvocation | .fieldAccess | .binaryExpression | .parenthesizedExpression | .argumentList
  | .variableDeclarator | .resource | .explicitConstructorInvocation => true
  | _ => false

/-- variables in nodes of these kinds lie in scopes in them -/
def isClosed (k : NodeKind) : Bool :=
  match k with
  | .lambdaExpression => false
  | .enumConstant | .staticInitializer => true
  | k => k.content.isPlain

/-- whether a child may stand under a node of a kind, as far as variables are concerned -/
def holds (k : NodeKind) (h : Head) : Bool :=
  k.holdsInRole h && (h.2 != .members || k.isTypeDeclaration) && (!k.holdsExpressions || h.2.isPlain) &&
    (!k.isClosed || h.2.isPlain || h.2 == .scoped) && (k != .inferredParameters || h.2 == .plain)

theorem holds_comment (k : NodeKind) : k.holds (none, .plain) = true := by
  cases k <;> decide

end NodeKind

namespace Node

def head (n : Node) : Head :=
  (n.role, n.kind.content)

/-- the node and all nodes in it hold what their kinds may -/
inductive Regular : Node → Prop where
  | mk {kind : NodeKind} {role : Option Role} {start stop : Nat} {children : List Node} :
    (∀ c ∈ children, kind.holds c.head = true) → (∀ c ∈ children, c.Regular) →
    Regular (.mk kind role start stop children)

variable {n c : Node}

theorem Regular.child (h : n.Regular) (hc : c ∈ n.children) : c.Regular := by
  cases h with
  | mk _ hch => exact hch c hc

theorem Regular.holds (h : n.Regular) (hc : c ∈ n.children) : n.kind.holds c.head = true := by
  cases h with
  | mk hh _ => exact hh c hc

/-- only types hold members that are no class's -/
theorem Regular.members (h : n.Regular) (hc : c ∈ n.children) (hk : n.kind.isTypeDeclaration = false) :
    c.kind.content ≠ .members := by
  have := h.holds hc
  simp only [NodeKind.holds, head, hk, Bool.and_eq_true, Bool.or_false, bne_iff_ne, ne_eq] at this
  exact this.1.1.1.2

theorem Regular.expression (h : n.Regular) (hc : c ∈ n.children) (hk : n.kind.holdsExpressions = true) :
    c.kind.content.isPlain = true := by
  have := h.holds hc
  simp only [NodeKind.holds, head, hk, Bool.and_eq_true, Bool.not_true, Bool.false_or] at this
  exact this.1.1.2

theorem Regular.closed (h : n.Regular) (hc : c ∈ n.children) (hk : n.kind.isClosed = true) :
    c.kind.content.isPlain = true ∨ c.kind.content = .scoped := by
  have := h.holds hc
  simp only [NodeKind.holds, head, hk, Bool.and_eq_true, Bool.not_true, Bool.false_or, Bool.or_eq_true, beq_iff_eq] at this
  exact this.1.2

theorem Regular.inferred (h : n.Regular) (hc : c ∈ n.children) (hk : n.kind = .inferredParameters) :
    c.kind.content = .plain := by
  have := h.holds hc
  simp only [NodeKind.holds, head, hk, Bool.and_eq_true, bne_self_eq_false, Bool.false_or, beq_iff_eq] at this
  exact this.2

theorem Regular.inRole (h : n.Regular) (hc : c ∈ n.children) : n.kind.holdsInRole c.head = true := by
  have := h.holds hc
  simp only [NodeKind.holds, Bool.and_eq_true] at this
  exact this.1.1.1.1

theorem Regular.body (h : n.Regular) (hc : c ∈ n.children) (hr : c.role = some .body) (hk : n.kind.hasBody = true) :
    c.kind.content = .scoped ∨ c.kind.content = .members := by
  simpa [NodeKind.holdsInRole, head, hr, hk] using h.inRole hc

theorem Regular.arguments (h : n.Regular) (hc : c ∈ n.children) (hr : c.role = some .arguments)
    (hk : n.kind.takesArguments = true) : c.kind.content = .arguments := by
  simpa [NodeKind.holdsInRole, head, hr, hk] using h.inRole hc

theorem Regular.parameters (h : n.Regular) (hc : c ∈ n.children) (hr : c.role = some .parameters) :
    n.kind ≠ .compactConstructorDeclaration ∧ (c.kind.content = .plain ∨ c.kind.content = .other) := by
  simpa [NodeKind.holdsInRole, head, hr] using h.inRole hc

theorem Regular.withRole (h : n.Regular) (r : Role) : (n.withRole r).Regular := by
  cases h with
  | mk hh hc => exact .mk hh hc

/-- the node stands in one of some ways, or is a comment and plays no role -/
def Among (hs : List Head) (n : Node) : Prop :=
  (n.isComment = true ∧ n.role = none) ∨ (n.isComment = false ∧ n.head ∈ hs)

theorem Among.mono {hs gs : List Head} (h : n.Among hs) (hsub : hs ⊆ gs) : n.Among gs :=
  h.imp id fun ⟨hn, hmem⟩ => ⟨hn, hsub hmem⟩

theorem Among.comment {hs : List Head} (h : n.Among hs) (hn : n.isComment = true) (gs : List Head) :
    n.Among gs := by
  rcases h with h | ⟨hn', -⟩
  · exact .inl h
  · rw [hn] at hn'
    cases hn'

theorem among_of_role (kind : NodeKind) (start stop : Nat) (children : List Node) :
    (Node.mk kind none start stop children).Among [(none, kind.content)] := by
  cases h : kind.isComment with
  | true => exact .inl ⟨h, rfl⟩
  | false => exact .inr ⟨h, List.mem_singleton_self _⟩

theorem head_of_comment (hn : n.isComment = true) (hr : n.role = none) : n.head = (none, .plain) := by
  have hc : n.kind.content = .plain := by
    rw [isComment] at hn
    revert hn
    cases n.kind <;> decide
  rw [head, hr, hc]

/-- a comment may stand anywhere -/
theorem Among.holds {hs : List Head} (h : n.Among hs) {k : NodeKind} (hk : ∀ p ∈ hs, k.holds p = true) :
    k.holds n.head = true := by
  rcases h with ⟨hn, hr⟩ | ⟨-, hmem⟩
  · rw [head_of_comment hn hr]
    exact k.holds_comment
  · exact hk _ hmem

end Node

/-! ## Grammars -/

/-- the role of a child, unless it has one -/
def Head.inRole (r : Role) (h : Head) : Head :=
  (h.1.or (some r), h.2)

theorem Node.Among.inRole {hs : List Head} {n : Node} (h : n.Among hs) (r : Role) :
    (if n.isComment || n.role.isSome then n else n.withRole r).Among (hs.map (Head.inRole r)) := by
  obtain ⟨kind, role, start, stop, children⟩ := n
  rcases h with ⟨hn, hr⟩ | ⟨hn, hmem⟩
  · rw [hn]
    exact .inl ⟨hn, hr⟩
  · rw [hn, Bool.false_or]
    cases role with
    | none => exact .inr ⟨hn, List.mem_map.2 ⟨_, hmem, rfl⟩⟩
    | some r' => exact .inr ⟨hn, List.mem_map.2 ⟨_, hmem, rfl⟩⟩

namespace Grammar

mutual

/-- how the nodes that a grammar gives may stand, comments apart -/
def heads (σ : Symbol → List Head) : Grammar → List Head
  | token _ => []
  | leaf kind _ => [(none, kind.content)]
  | seq parts => allHeads σ parts
  | choice options => allHeads σ options
  | maybe g => heads σ g
  | many g => heads σ g
  | node kind _ => [(none, kind.content)]
  | solid kind _ => [(none, kind.content)]
  | role r g => (heads σ g).map (Head.inRole r)
  | ref s => σ s
  | ahead _ => []
  | notAhead _ => []
  | among _ g => heads σ g
  | aheadArrow => []
  | commit => []
  | chain first links => heads σ first ++ links.map fun l => (none, l.kind.content)
termination_by structural g => g

def allHeads (σ : Symbol → List Head) : List Grammar → List Head
  | [] => []
  | g :: gs => heads σ g ++ allHeads σ gs
termination_by structural gs => gs

end

/-- how what stands before a link may stand, in the role that the link gives it -/
def leftHeads (role : Option Role) (hs : List Head) : List Head :=
  match role with
  | none => hs
  | some r => hs.map (Head.inRole r)

mutual

/-- whether all nodes that a grammar makes hold what their kinds may -/
def regular (σ : Symbol → List Head) : Grammar → Bool
  | token _ => true
  | leaf _ _ => true
  | seq parts => allRegular σ parts
  | choice options => allRegular σ options
  | maybe g => regular σ g
  | many g => regular σ g
  | node kind g => regular σ g && (heads σ g).all kind.holds
  | solid _ g => regular σ g
  | role _ g => regular σ g
  | ref _ => true
  | ahead _ => true
  | notAhead _ => true
  | among _ g => regular σ g
  | aheadArrow => true
  | commit => true
  | chain first links =>
    regular σ first && linksRegular σ (heads σ first ++ links.map fun l => (none, l.kind.content)) links
termination_by structural g => g

def allRegular (σ : Symbol → List Head) : List Grammar → Bool
  | [] => true
  | g :: gs => regular σ g && allRegular σ gs
termination_by structural gs => gs

/-- `lefts` are the ways in which what stands before a link may stand -/
def linksRegular (σ : Symbol → List Head) (lefts : List Head) : List (Link Grammar) → Bool
  | [] => true
  | l :: ls => linkRegular σ lefts l && linksRegular σ lefts ls
termination_by structural ls => ls

def linkRegular (σ : Symbol → List Head) (lefts : List Head) : Link Grammar → Bool
  | ⟨_, kind, left, rest⟩ => regular σ rest && (leftHeads left lefts).all kind.holds && (heads σ rest).all kind.holds
termination_by structural l => l

end

variable {σ : Symbol → List Head} {rule : Symbol → Grammar}

theorem heads_subset_of_mem {gs : List Grammar} {g : Grammar} (hg : g ∈ gs) : heads σ g ⊆ allHeads σ gs := by
  induction gs with
  | nil => simp at hg
  | cons g' gs ih =>
    rw [allHeads]
    rcases List.mem_cons.1 hg with rfl | hg
    · exact List.subset_append_left _ _
    · exact List.Subset.trans (ih hg) (List.subset_append_right _ _)

theorem allRegular_iff {gs : List Grammar} : allRegular σ gs = true ↔ ∀ g ∈ gs, regular σ g = true := by
  induction gs with
  | nil => simp [allRegular]
  | cons g gs ih => simp [allRegular, ih]

theorem linksRegular_iff {lefts : List Head} {ls : List (Link Grammar)} :
    linksRegular σ lefts ls = true ↔ ∀ l ∈ ls, linkRegular σ lefts l = true := by
  induction ls with
  | nil => simp [linksRegular]
  | cons l ls ih => simp [linksRegular, ih]

/-- the rules of all nonterminals are regular, and the table has how their nodes stand -/
def RulesRegular (σ : Symbol → List Head) (rule : Symbol → Grammar) : Prop :=
  ∀ s, regular σ (rule s) = true ∧ heads σ (rule s) ⊆ σ s

/-! ## Derivations -/

/-- what is shown of a derivation -/
def RegularBy (σ : Symbol → List Head) (g : Grammar) (ns : List Node) : Prop :=
  ∀ n ∈ ns, n.Among (heads σ g) ∧ n.Regular

theorem comments_regular (hs : List Head) (cs : List Comment) : ∀ n ∈ cs.map Comment.node, n.Among hs ∧ n.Regular := by
  intro n hn
  obtain ⟨c, -, rfl⟩ := List.mem_map.1 hn
  exact ⟨.inl ⟨c.node_isComment, rfl⟩, .mk (by simp) (by simp)⟩

/-- a new node after the comments before it -/
theorem regular_made {kind : NodeKind} {ns inside : List Node} {hs : List Head} {a : Nat} (stop : Nat)
    (hns : ∀ n ∈ ns, n.Among hs ∧ n.Regular) (hin : inside ⊆ ns) (hk : inside = [] ∨ ∀ p ∈ hs, kind.holds p = true) :
    ∀ n ∈ (splitNodes a ns).1 ++ [.mk kind none a stop inside], n.Among [(none, kind.content)] ∧ n.Regular := by
  intro n hn
  rcases List.mem_append.1 hn with hn | hn
  · obtain ⟨hamong, hreg⟩ := hns n (mem_splitNodes.2 (.inl hn))
    exact ⟨hamong.comment (splitNodes_isComment n hn) _, hreg⟩
  · obtain rfl := List.mem_singleton.1 hn
    refine ⟨Node.among_of_role kind a stop inside, .mk (fun c hc => ?_) fun c hc => (hns c (hin hc)).2⟩
    rcases hk with rfl | hk
    · simp at hc
    · exact (hns c (hin hc)).1.holds hk

theorem inside_subset (a : Nat) (ns : List Node) : (splitNodes a ns).2 ⊆ ns :=
  fun _ hn => mem_splitNodes.2 (.inr hn)

theorem assignRole_regular {hs : List Head} {ns : List Node} (h : ∀ n ∈ ns, n.Among hs ∧ n.Regular) (r : Role) :
    ∀ n ∈ assignRole r ns, n.Among (hs.map (Head.inRole r)) ∧ n.Regular := by
  intro m hm
  obtain ⟨n, hn, rfl⟩ := List.mem_map.1 hm
  refine ⟨(h n hn).1.inRole r, ?_⟩
  split_ifs
  · exact (h n hn).2
  · exact (h n hn).2.withRole r

theorem assignLeft_regular {hs : List Head} {ns : List Node} (h : ∀ n ∈ ns, n.Among hs ∧ n.Regular) (l : Link Grammar) :
    ∀ n ∈ assignLeft l ns, n.Among (leftHeads l.role hs) ∧ n.Regular := by
  unfold assignLeft leftHeads
  cases l.role with
  | none => exact h
  | some r => exact assignRole_regular h r

/-- **Trees are regular.** When the table agrees with the rules, the nodes of every derivation stand as its grammar says,
and all nodes in them hold what their kinds may. -/
theorem Derives.regular (hrule : RulesRegular σ rule) {g : Grammar} {i j : Input} {ns : List Node}
    (h : Derives rule g i ns j) (hg : regular σ g = true) : RegularBy σ g ns := by
  induction h with
  | token _ => exact comments_regular _ _
  | @leaf kind t i found rest _ =>
    intro n hn
    rcases List.mem_append.1 hn with hn | hn
    · exact comments_regular _ _ n hn
    · obtain rfl := List.mem_singleton.1 hn
      exact ⟨Node.among_of_role kind _ _ _, .mk (by simp) (by simp)⟩
  | seqNil | maybeNone | manyNil | ahead | notAhead | aheadArrow | commit => exact fun n hn => by simp at hn
  | seqCons _ _ ih ih' =>
    rw [Grammar.regular, allRegular, Bool.and_eq_true] at hg
    intro n hn
    rw [heads, allHeads]
    rcases List.mem_append.1 hn with hn | hn
    · exact (ih hg.1 n hn).imp_left (·.mono (List.subset_append_left _ _))
    · exact (ih' hg.2 n hn).imp_left (·.mono (List.subset_append_right _ _))
  | choice hm _ ih =>
    intro n hn
    rw [heads]
    exact (ih (allRegular_iff.1 hg _ hm) n hn).imp_left (·.mono (heads_subset_of_mem hm))
  | maybeSome _ ih | among _ ih => exact ih hg
  | manyCons _ _ ih ih' => exact fun n hn => (List.mem_append.1 hn).elim (ih hg n) (ih' hg n)
  | @node kind g i j ns _ ih =>
    rw [Grammar.regular, Bool.and_eq_true, List.all_eq_true] at hg
    exact regular_made j.stop (ih hg.1) (inside_subset _ _) (.inr hg.2)
  | @solid kind g i j ns _ ih => exact regular_made j.stop (ih hg) (by simp) (.inl rfl)
  | role _ ih => exact assignRole_regular (ih hg) _
  | ref _ ih =>
    obtain ⟨hreg, hsub⟩ := hrule _
    exact fun n hn => (ih hreg n hn).imp_left (·.mono hsub)
  | chainFirst _ ih =>
    rw [Grammar.regular, Bool.and_eq_true] at hg
    intro n hn
    rw [heads]
    exact (ih hg.1 n hn).imp_left (·.mono (List.subset_append_left _ _))
  | @chainLink first links l i j k ns ms _ hl _ ih ih' =>
    have left := assignLeft_regular (ih hg) l
    rw [Grammar.regular, Bool.and_eq_true, linksRegular_iff] at hg
    have link := hg.2 l hl
    obtain ⟨lefts, kind, role, rest⟩ := l
    rw [linkRegular, Bool.and_eq_true, Bool.and_eq_true, List.all_eq_true, List.all_eq_true] at link
    rw [heads] at left
    have all : ∀ n ∈ assignLeft ⟨lefts, kind, role, rest⟩ ns ++ ms,
        n.Among (leftHeads role (heads σ first ++ links.map fun l => (none, l.kind.content)) ++ heads σ rest) ∧
          n.Regular := by
      intro n hn
      rcases List.mem_append.1 hn with hn | hn
      · exact (left n hn).imp_left (·.mono (List.subset_append_left _ _))
      · exact (ih' link.1.1 n hn).imp_left (·.mono (List.subset_append_right _ _))
    intro n hn
    have made := regular_made k.stop all (inside_subset i.next _)
      (.inr fun p hp => (List.mem_append.1 hp).elim (link.1.2 p) (link.2 p)) n hn
    refine made.imp_left (·.mono fun p hp => ?_)
    obtain rfl := List.mem_singleton.1 hp
    rw [heads]
    exact List.mem_append_right _ (List.mem_map.2 ⟨_, hl, rfl⟩)

/-- a chain with fewer links is regular when one with more is -/
theorem regular_chain_subset {first : Grammar} {links more : List (Link Grammar)} (h : links ⊆ more)
    (hm : regular σ (.chain first more) = true) : regular σ (.chain first links) = true := by
  rw [regular, Bool.and_eq_true, linksRegular_iff] at hm ⊢
  refine ⟨hm.1, fun l hl => ?_⟩
  have link := hm.2 l (h hl)
  obtain ⟨lefts, kind, role, rest⟩ := l
  rw [linkRegular, Bool.and_eq_true, Bool.and_eq_true, List.all_eq_true, List.all_eq_true] at link ⊢
  refine ⟨⟨link.1.1, fun p hp => link.1.2 p ?_⟩, link.2⟩
  have hsub : (heads σ first ++ links.map fun l => ((none : Option Role), l.kind.content)) ⊆
      heads σ first ++ more.map fun l => (none, l.kind.content) :=
    List.append_subset.2 ⟨List.subset_append_left _ _,
      List.Subset.trans (List.map_subset _ h) (List.subset_append_right _ _)⟩
  unfold leftHeads at hp ⊢
  cases role with
  | none => exact hsub hp
  | some r => exact List.map_subset _ hsub hp

theorem heads_chain_subset {first : Grammar} {links more : List (Link Grammar)} (h : links ⊆ more) :
    heads σ (.chain first links) ⊆ heads σ (.chain first more) := by
  rw [heads, heads]
  exact List.append_subset.2 ⟨List.subset_append_left _ _,
    List.Subset.trans (List.map_subset _ h) (List.subset_append_right _ _)⟩

end Grammar

/-! ## The table of nonterminals -/

open Grammar

/-- how the nodes of each nonterminal stand -/
def Symbol.heads : Symbol → List Head
  | .program | .localVariable | .declaration | .annotationMember | .enumConstant | .formalParameters => [(none, .other)]
  | .statement | .blockStatements => [(none, .plain), (none, .scoped), (none, .other)]
  | .member | .interfaceMember => [(none, .scoped), (none, .other)]
  | .block | .classBody | .method => [(none, .scoped)]
  | .declarators => [(some .declarator, .other)]
  | .arguments => [(none, .arguments)]
  | .operand _ _ | .expression _ _ _ | .variableInitializer | .elementValue => [(none, .plain), (none, .function)]
  | _ => [(none, .plain)]

/-- whether the table agrees with a rule of a nonterminal -/
def Symbol.isRegular (s : Symbol) (g : Grammar) : Bool :=
  regular Symbol.heads g && (Grammar.heads Symbol.heads g).all fun h => decide (h ∈ s.heads)

theorem Symbol.isRegular_iff {s : Symbol} {g : Grammar} :
    s.isRegular g = true ↔ regular Symbol.heads g = true ∧ Grammar.heads Symbol.heads g ⊆ s.heads := by
  rw [isRegular, Bool.and_eq_true, List.all_eq_true]
  exact and_congr_right fun _ => ⟨fun h p hp => of_decide_eq_true (h p hp), fun h p hp => decide_eq_true (h hp)⟩

theorem Symbol.rules_isRegular (s : Symbol) : s.isRegular s.rule = true := by
  cases s with
  | operand arrow signs => cases arrow <;> cases signs <;> decide
  | expression level arrow signs =>
    have all : (Symbol.expression 0 true .free).isRegular
        (.chain (.ref (.operand arrow signs)) ((operatorLinks arrow).map (·.2))) = true := by
      cases arrow <;> cases signs <;> decide
    obtain ⟨hreg, hsub⟩ := isRegular_iff.1 all
    have fewer := expressionAt_links level arrow
    exact isRegular_iff.2 ⟨regular_chain_subset fewer hreg, List.Subset.trans (heads_chain_subset fewer) hsub⟩
  | _ => decide

theorem rules_regular : RulesRegular Symbol.heads Symbol.rule :=
  fun s => Symbol.isRegular_iff.1 s.rules_isRegular

/-- **Trees are regular.** -/
theorem Source.tree_regular {s : Source} {root : Node} (h : s.tree? = some root) : root.Regular := by
  obtain ⟨ts, -, ht⟩ := Source.tree_tokens h
  obtain ⟨nodes, j, hd, -, hmem, -⟩ := Tokens.tree_derives ht
  exact (hd.regular rules_regular rfl root hmem).2

end CallLint
