/-
The names of declared types are words. In declarations of types the grammar gives the role of a name to one word and to
nothing else (`namesByWords`), which is checked of all rules and carried to all derivations (`Derives.type_names`).
`Source.tree_typeName`: the name of each type that a tree declares is the text of a word.
-/
import CallLint.Proofs.Grammar.WordTexts

namespace CallLint

namespace Grammar

/-! ## Grammars of declarations -/

/-- whether the grammar makes one word a node -/
def isWordLeaf : Grammar → Bool
  | leaf _ t => t.isWord
  | _ => false

mutual

/-- whether all nodes that the grammar gives in the role of a name are words; what stands under other nodes does not
count -/
def namesByWords : Grammar → Bool
  | seq parts => allNameByWords parts
  | choice options => allNameByWords options
  | maybe g => namesByWords g
  | many g => namesByWords g
  | role r g => if r = .name then isWordLeaf g else namesByWords g
  | among _ g => namesByWords g
  | chain first _ => namesByWords first
  | _ => true
termination_by structural g => g

def allNameByWords : List Grammar → Bool
  | [] => true
  | g :: gs => namesByWords g && allNameByWords gs
termination_by structural gs => gs

end

mutual

/-- whether all declarations of types that the grammar makes are named by words -/
def typesNamed : Grammar → Bool
  | seq parts => allTypesNamed parts
  | choice options => allTypesNamed options
  | maybe g => typesNamed g
  | many g => typesNamed g
  | node kind g => (!kind.isTypeDeclaration || namesByWords g) && typesNamed g
  | solid _ g => typesNamed g
  | role _ g => typesNamed g
  | among _ g => typesNamed g
  | chain first links => typesNamed first && linksTypesNamed links
  | _ => true
termination_by structural g => g

def allTypesNamed : List Grammar → Bool
  | [] => true
  | g :: gs => typesNamed g && allTypesNamed gs
termination_by structural gs => gs

def linksTypesNamed : List (Link Grammar) → Bool
  | [] => true
  | l :: ls => linkTypesNamed l && linksTypesNamed ls
termination_by structural ls => ls

def linkTypesNamed : Link Grammar → Bool
  | ⟨_, kind, _, rest⟩ => !kind.isTypeDeclaration && typesNamed rest
termination_by structural l => l

end

theorem allNameByWords_iff {gs : List Grammar} : allNameByWords gs = true ↔ ∀ g ∈ gs, namesByWords g = true := by
  induction gs with
  | nil => simp [allNameByWords]
  | cons g gs ih => simp [allNameByWords, ih]

theorem allTypesNamed_iff {gs : List Grammar} : allTypesNamed gs = true ↔ ∀ g ∈ gs, typesNamed g = true := by
  induction gs with
  | nil => simp [allTypesNamed]
  | cons g gs ih => simp [allTypesNamed, ih]

theorem linksTypesNamed_iff {ls : List (Link Grammar)} :
    linksTypesNamed ls = true ↔ ∀ l ∈ ls, l.kind.isTypeDeclaration = false ∧ typesNamed l.rest = true := by
  induction ls with
  | nil => simp [linksTypesNamed]
  | cons l ls ih =>
    obtain ⟨lefts, kind, left, rest⟩ := l
    simp [linksTypesNamed, linkTypesNamed, ih]

/-- all rules name types by words -/
theorem rules_typesNamed (s : Symbol) : namesByWords s.rule = true ∧ typesNamed s.rule = true := by
  cases s with
  | operand arrow signs => cases arrow <;> cases signs <;> decide
  | expression level arrow signs =>
    have all : ∀ arrow, linksTypesNamed ((operatorLinks arrow).map (·.2)) = true := by
      intro arrow
      cases arrow <;> decide
    refine ⟨rfl, ?_⟩
    change (true && linksTypesNamed _) = true
    rw [Bool.true_and, linksTypesNamed_iff]
    exact fun l hl => linksTypesNamed_iff.1 (all arrow) l (expressionAt_links level arrow hl)
  | _ => decide

/-! ## Derivations -/

/-- the property holds of the ends of all words -/
def WordsBetween (ends : Nat → Nat → Prop) (ts : List Token) : Prop :=
  ∀ t ∈ ts, t.kind.isWord = true → ends t.start t.stop

variable {rule : Symbol → Grammar} {ends : Nat → Nat → Prop} {g : Grammar} {i j : Input} {ns : List Node}

theorem WordsBetween.mono {ts rest : List Token} (h : WordsBetween ends ts) (hr : rest ⊆ ts) : WordsBetween ends rest :=
  fun t ht => h t (hr ht)

/-- nodes that are no comments and have the role of a name are words -/
def NamedByWords (ends : Nat → Nat → Prop) (ns : List Node) : Prop :=
  ∀ n ∈ ns, n.isComment = false → n.role = some .name → ends n.start n.stop

theorem NamedByWords.append {ms : List Node} (h : NamedByWords ends ns) (k : NamedByWords ends ms) :
    NamedByWords ends (ns ++ ms) :=
  fun n hn => (List.mem_append.1 hn).elim (h n) (k n)

theorem NamedByWords.nil : NamedByWords ends [] :=
  fun _ hn => nomatch hn

/-- comments and a node without a role -/
theorem NamedByWords.made {outside : List Node} (hout : ∀ n ∈ outside, n.isComment = true) (kind : NodeKind)
    (start stop : Nat) (inside : List Node) : NamedByWords ends (outside ++ [.mk kind none start stop inside]) := by
  intro n hn hcode hrole
  rcases List.mem_append.1 hn with hn | hn
  · rw [hout n hn] at hcode
    cases hcode
  · obtain rfl := List.mem_singleton.1 hn
    cases hrole

/-- one word becomes a node that ends where it does -/
theorem Derives.wordLeaf (h : Derives rule g i ns j) (hg : isWordLeaf g = true) (hi : WordsBetween ends i.rest) :
    ∀ n ∈ ns, n.isComment = false → ends n.start n.stop := by
  unfold isWordLeaf at hg
  split at hg
  · cases h with
    | @leaf kind t i found rest ht =>
      intro n hn hcode
      rcases List.mem_append.1 hn with hn | hn
      · rw [comments_isComment _ n hn] at hcode
        cases hcode
      · obtain rfl := List.mem_singleton.1 hn
        obtain ⟨hrest, hword⟩ := Terminal.take_word hg ht
        exact hi found (hrest ▸ List.mem_cons_self) hword
  · cases hg

/-- the nodes of a grammar that names by words -/
theorem Derives.namedByWords (hrule : ∀ s, namesByWords (rule s) = true) (h : Derives rule g i ns j)
    (hg : namesByWords g = true) (hi : WordsBetween ends i.rest) : NamedByWords ends ns := by
  induction h with
  | token => exact fun n hn hcode => by rw [comments_isComment _ n hn] at hcode; cases hcode
  | leaf => exact .made (comments_isComment _) _ _ _ _
  | seqNil | maybeNone | manyNil | ahead | notAhead | aheadArrow | commit => exact .nil
  | seqCons first _ ih ih' =>
    rw [namesByWords, allNameByWords, Bool.and_eq_true] at hg
    exact (ih hg.1 hi).append (ih' hg.2 (hi.mono first.rest_subset))
  | choice hmem _ ih =>
    rw [namesByWords] at hg
    exact ih (allNameByWords_iff.1 hg _ hmem) hi
  | manyCons first _ ih ih' => exact (ih hg hi).append (ih' hg (hi.mono first.rest_subset))
  | node | solid => exact .made splitNodes_isComment _ _ _ _
  | @role r g i j ns inside ih =>
    rw [namesByWords] at hg
    intro m hm hcode hrole
    obtain ⟨n, hn, rfl⟩ := List.mem_map.1 hm
    by_cases hname : r = .name
    · rw [if_pos hname] at hg
      split_ifs at hcode ⊢
      · exact inside.wordLeaf hg hi n hn hcode
      · rw [isComment_withRole] at hcode
        rw [start_withRole, stop_withRole]
        exact inside.wordLeaf hg hi n hn hcode
    · rw [if_neg hname] at hg
      split_ifs at hcode hrole ⊢
      · exact ih hg hi n hn hcode hrole
      · obtain ⟨kind, role, start, stop, children⟩ := n
        exact absurd (Option.some.inj hrole) hname
  | ref _ ih => exact ih (hrule _) hi
  | maybeSome _ ih | among _ ih | chainFirst _ ih => exact ih hg hi
  | chainLink => exact .made splitNodes_isComment _ _ _ _

/-- the types that the node declares, itself or in it, are named where the property holds -/
def TypesNamed (ends : Nat → Nat → Prop) (n : Node) : Prop :=
  ∀ m ∈ n.within, m.kind.isTypeDeclaration = true → NamedByWords ends m.children

theorem TypesNamed.mk {kind : NodeKind} {role : Option Role} {start stop : Nat} {children : List Node}
    (hkind : kind.isTypeDeclaration = true → NamedByWords ends children) (h : ∀ c ∈ children, TypesNamed ends c) :
    TypesNamed ends (.mk kind role start stop children) := by
  intro m hm htype
  rcases Node.mem_within_iff.1 hm with rfl | ⟨c, hc, hm⟩
  · exact hkind htype
  · exact h c hc m hm htype

theorem TypesNamed.leaf {kind : NodeKind} {start stop : Nat} : TypesNamed ends (.mk kind none start stop []) :=
  .mk (fun _ => .nil) (by simp)

theorem TypesNamed.withRole {n : Node} (h : TypesNamed ends n) (r : Role) : TypesNamed ends (n.withRole r) := by
  obtain ⟨kind, role, start, stop, children⟩ := n
  refine .mk (fun htype => h _ (Node.mem_within_self _) htype) fun c hc m hm => h m ?_
  exact Node.mem_within_iff.2 (.inr ⟨c, hc, hm⟩)

theorem typesNamed_comments (cs : List Comment) : ∀ n ∈ cs.map Comment.node, TypesNamed ends n := by
  intro n hn
  obtain ⟨c, -, rfl⟩ := List.mem_map.1 hn
  exact .leaf

theorem typesNamed_assignRole {r : Role} (h : ∀ n ∈ ns, TypesNamed ends n) : ∀ n ∈ assignRole r ns, TypesNamed ends n := by
  intro m hm
  obtain ⟨n, hn, rfl⟩ := List.mem_map.1 hm
  split_ifs
  · exact h n hn
  · exact (h n hn).withRole r

theorem typesNamed_wrap {kind : NodeKind} {start stop : Nat} (hkind : kind.isTypeDeclaration = true → NamedByWords ends ns)
    (h : ∀ n ∈ ns, TypesNamed ends n) : ∀ n ∈ wrap kind start stop ns, TypesNamed ends n := by
  intro n hn
  rcases List.mem_append.1 hn with hn | hn
  · exact h n (mem_splitNodes.2 (.inl hn))
  · obtain rfl := List.mem_singleton.1 hn
    refine .mk (fun htype c hc => hkind htype c (mem_splitNodes.2 (.inr hc))) fun c hc => h c (mem_splitNodes.2 (.inr hc))

/-- **Types are named by words** in all nodes of a derivation. -/
theorem Derives.type_names (hrule : ∀ s, namesByWords (rule s) = true ∧ typesNamed (rule s) = true)
    (h : Derives rule g i ns j) (hg : typesNamed g = true) (hi : WordsBetween ends i.rest) :
    ∀ n ∈ ns, TypesNamed ends n := by
  induction h with
  | token => exact typesNamed_comments _
  | leaf =>
    intro n hn
    rcases List.mem_append.1 hn with hn | hn
    · exact typesNamed_comments _ n hn
    · exact List.mem_singleton.1 hn ▸ .leaf
  | seqNil | maybeNone | manyNil | ahead | notAhead | aheadArrow | commit => simp
  | seqCons first _ ih ih' =>
    rw [typesNamed, allTypesNamed, Bool.and_eq_true] at hg
    intro n hn
    exact (List.mem_append.1 hn).elim (ih hg.1 hi n) (ih' hg.2 (hi.mono first.rest_subset) n)
  | choice hmem _ ih =>
    rw [typesNamed] at hg
    exact ih (allTypesNamed_iff.1 hg _ hmem) hi
  | manyCons first _ ih ih' =>
    intro n hn
    exact (List.mem_append.1 hn).elim (ih hg hi n) (ih' hg (hi.mono first.rest_subset) n)
  | node inside ih =>
    rw [typesNamed, Bool.and_eq_true, Bool.or_eq_true, Bool.not_eq_true'] at hg
    refine typesNamed_wrap (fun htype => ?_) (ih hg.2 hi)
    refine inside.namedByWords (fun s => (hrule s).1) (hg.1.resolve_left ?_) hi
    rw [htype]
    exact Bool.true_eq_false_eq_False
  | solid _ ih =>
    intro n hn
    rcases List.mem_append.1 hn with hn | hn
    · exact ih hg hi n (mem_splitNodes.2 (.inl hn))
    · exact List.mem_singleton.1 hn ▸ .leaf
  | role _ ih => exact typesNamed_assignRole (ih hg hi)
  | ref _ ih => exact ih (hrule _).2 hi
  | maybeSome _ ih | among _ ih => exact ih hg hi
  | chainFirst _ ih =>
    rw [typesNamed, Bool.and_eq_true] at hg
    exact ih hg.1 hi
  | @chainLink first links l i j k ns ms before hl _ ih ih' =>
    have left := ih hg hi
    rw [typesNamed, Bool.and_eq_true] at hg
    obtain ⟨hkind, hrest⟩ := linksTypesNamed_iff.1 hg.2 l hl
    refine typesNamed_wrap (fun htype => ?_) fun n hn => ?_
    · rw [hkind] at htype
      cases htype
    rcases List.mem_append.1 hn with hn | hn
    · rw [assignLeft] at hn
      split at hn
      · exact left n hn
      · exact typesNamed_assignRole left n hn
    · exact ih' hrest (hi.mono before.rest_subset) n hn

end Grammar

theorem Node.Shaped.within {n m : Node} (h : n.Shaped) (hm : m ∈ n.within) : m.Shaped := by
  induction h with
  | mk hcomment hallows hfits hchildren ih =>
    rcases Node.mem_within_iff.1 hm with rfl | ⟨c, hc, hm⟩
    · exact .mk hcomment hallows hfits hchildren
    · exact ih c hc hm

/-- **The name of a type is a word.** -/
theorem Source.tree_typeName {s : Source} {root n m : Node} (h : s.tree? = some root) (hn : n ∈ root.within)
    (htype : n.kind.isTypeDeclaration = true) (hm : n.child? .name = some m) : Lexeme.IsWord (s.textOf m).toList := by
  obtain ⟨ts, htokens, htree⟩ := Source.tree_tokens h
  obtain ⟨nodes, j, hd, -, hroot, -⟩ := Tokens.tree_derives htree
  have words : Grammar.WordsBetween (fun a b => Lexeme.IsWord (s.slice a b).toList) ts.tokens :=
    fun t ht hword => (Source.tokens_words htokens t ht hword).isWord
  have named := hd.type_names Grammar.rules_typesNamed rfl words root hroot n hn htype
  have child : m ∈ n.children := List.mem_of_find?_eq_some hm
  have role : m.role = some .name := by simpa using List.find?_some hm
  have shaped : m.Shaped := ((Source.tree_shaped h).within hn).child child
  have code : m.isComment = false := by
    rw [Bool.eq_false_iff]
    intro hcomment
    rw [shaped.comment_role hcomment] at role
    cases role
  exact named m child code role

end CallLint
