/-
The syntax trees of files. `Source.tree_shaped`: the children of all nodes are those that the kinds of the nodes allow.
`Source.tree_inOrder`: the children of all nodes follow one another in the order of the text, between the ends of their
parent, and no node but the root is empty.

Both come from a table of the nonterminals, which is checked against their rules one by one. The rules of expressions
depend on a level; at each level the ways to go on are some of those that there are at all.
-/
import CallLint.Source.Parser
import CallLint.Proofs.Grammar.TokenOrder
import CallLint.Proofs.Grammar.Words

namespace CallLint

open Grammar

/-! ## Fewer links -/

namespace Grammar

theorem linksChecked_iff {σ : Symbol → List Word} {lefts : List Word} {ls : List (Link Grammar)} :
    linksChecked σ lefts ls = true ↔ ∀ l ∈ ls, linkChecked σ lefts l = true := by
  induction ls with
  | nil => simp [linksChecked]
  | cons l ls ih => simp [linksChecked, ih]

theorem leftWords_subset {r : Option Role} {ws vs : List Word} (h : ws ⊆ vs) : leftWords r ws ⊆ leftWords r vs := by
  cases r with
  | none => exact h
  | some r => exact List.map_subset _ h

theorem words_chain_subset {σ : Symbol → List Word} {first : Grammar} {links more : List (Link Grammar)}
    (h : links ⊆ more) : words σ (.chain first links) ⊆ words σ (.chain first more) := by
  rw [words, words]
  exact List.append_subset.2 ⟨List.subset_append_left _ _,
    List.Subset.trans (List.map_subset _ h) (List.subset_append_right _ _)⟩

/-- a chain with fewer links is checked when one with more is -/
theorem checked_chain_subset {σ : Symbol → List Word} {first : Grammar} {links more : List (Link Grammar)}
    (h : links ⊆ more) (hm : checked σ (.chain first more) = true) : checked σ (.chain first links) = true := by
  have hsub : Grammar.words σ (.chain first links) ⊆ Grammar.words σ (.chain first more) := words_chain_subset h
  rw [words, words] at hsub
  rw [checked, Bool.and_eq_true] at hm ⊢
  refine ⟨hm.1, linksChecked_iff.2 fun l hl => ?_⟩
  have hl := linksChecked_iff.1 hm.2 l (h hl)
  obtain ⟨_, kind, left, rest⟩ := l
  simp only [linkChecked, Bool.and_eq_true, List.all_eq_true] at hl ⊢
  exact ⟨hl.1, fun v hv => hl.2 v (leftWords_subset hsub hv)⟩

theorem linksWrapText_iff {empty known : Symbol → Bool} {ls : List (Link Grammar)} :
    linksWrapText empty known ls = true ↔ ∀ l ∈ ls, linkWrapsText empty known l = true := by
  induction ls with
  | nil => simp [linksWrapText]
  | cons l ls ih => simp [linksWrapText, ih]

theorem wrapsText_chain_subset {empty known : Symbol → Bool} {first : Grammar} {links more : List (Link Grammar)}
    (h : links ⊆ more) (hm : wrapsText empty known (.chain first more) = true) :
    wrapsText empty known (.chain first links) = true := by
  rw [wrapsText, Bool.and_eq_true] at hm ⊢
  exact ⟨hm.1, linksWrapText_iff.2 fun l hl => linksWrapText_iff.1 hm.2 l (h hl)⟩

/-- an expression of any level goes on in one of all ways -/
theorem expressionAt_links (level : Nat) (arrow : Bool) :
    ((operatorLinks arrow).filter fun l => level < l.1).map (·.2) ⊆ (operatorLinks arrow).map (·.2) :=
  List.map_subset _ (List.filter_subset_self _)

end Grammar

/-! ## The table of nonterminals -/

/-- words for the nodes of each nonterminal -/
def Symbol.words : Symbol → List Word
  | .statement | .member | .interfaceMember | .annotationMember => [[], [⟨none, .busy, false⟩]]
  | .blockStatements => [[⟨none, .busy, true⟩]]
  | .modifiers | .annotationForm | .type | .unannotatedType | .simpleType | .typeArguments =>
    [[⟨none, .calm, false⟩]]
  | .classBody => [[.of .classBody]]
  | .declarators => [[⟨some .declarator, .declarator, false⟩, ⟨some .declarator, .declarator, true⟩]]
  | _ => [[⟨none, .busy, false⟩]]

/-- whether the table agrees with a rule of a nonterminal -/
def Symbol.agrees (s : Symbol) (g : Grammar) : Bool :=
  checked Symbol.words g && (Grammar.words Symbol.words g).all fun w => s.words.any fun v => Word.covers v w

theorem Symbol.agrees_chain_subset {s : Symbol} {first : Grammar} {links more : List (Link Grammar)} (h : links ⊆ more)
    (hm : s.agrees (.chain first more) = true) : s.agrees (.chain first links) = true := by
  rw [agrees, Bool.and_eq_true, List.all_eq_true] at hm ⊢
  exact ⟨checked_chain_subset h hm.1, fun w hw => hm.2 w (words_chain_subset h hw)⟩

theorem Symbol.rules_agree (s : Symbol) : s.agrees s.rule = true := by
  cases s with
  | operand arrow signs => cases arrow <;> cases signs <;> decide
  | expression level arrow signs =>
    refine agrees_chain_subset (expressionAt_links level arrow) ?_
    have all : ∀ arrow signs, (Symbol.expression 0 true .free).agrees
        (.chain (.ref (.operand arrow signs)) ((operatorLinks arrow).map (·.2))) = true := by
      intro arrow signs
      cases arrow <;> cases signs <;> decide
    exact all arrow signs
  | _ => decide +kernel

theorem rules_shaped : RulesShaped Symbol.words Symbol.rule := by
  intro s
  have h := s.rules_agree
  rw [Symbol.agrees, Bool.and_eq_true, List.all_eq_true] at h
  exact ⟨h.1, fun w hw => List.any_eq_true.1 (h.2 w hw)⟩

/-- nonterminals that may take no token -/
def Symbol.mayBeEmpty : Symbol → Bool
  | .program | .blockStatements => true
  | _ => false

/-- nonterminals that occur in rules -/
def Symbol.isPart : Symbol → Bool
  | .program => false
  | _ => true

/-- whether a rule makes no node out of nothing, and takes a token unless its nonterminal may be empty -/
def Symbol.takesText (s : Symbol) (g : Grammar) : Bool :=
  wrapsText mayBeEmpty isPart g && (!mayTakeNothing mayBeEmpty g || s.mayBeEmpty)

theorem Symbol.rules_takeText (s : Symbol) (hs : s.isPart = true) : s.takesText s.rule = true := by
  cases s with
  | program => exact absurd hs (by decide)
  | operand arrow signs => cases arrow <;> cases signs <;> decide
  | expression level arrow signs =>
    have all : ∀ arrow signs, (Symbol.expression 0 true .free).takesText
        (.chain (.ref (.operand arrow signs)) ((operatorLinks arrow).map (·.2))) = true := by
      intro arrow signs
      cases arrow <;> cases signs <;> decide
    have h := all arrow signs
    rw [takesText, Bool.and_eq_true] at h
    change (wrapsText _ _ (.chain _ _) && _) = true
    rw [Bool.and_eq_true]
    exact ⟨wrapsText_chain_subset (expressionAt_links level arrow) h.1, h.2⟩
  | _ => decide

theorem rules_wrapText : RulesWrapText Symbol.rule Symbol.mayBeEmpty Symbol.isPart := by
  intro s hs
  have h := s.rules_takeText hs
  rw [Symbol.takesText, Bool.and_eq_true, Bool.or_eq_true, Bool.not_eq_true'] at h
  refine ⟨h.1, fun hn => h.2.resolve_left ?_⟩
  simp [hn]

/-! ## Trees -/

/-- a tree is one of the nodes that the grammar gives for a whole file -/
theorem Tokens.tree_derives {ts : Tokens} {root : Node} (h : ts.tree? = some root) :
    ∃ nodes j, Derives Symbol.rule (.ref .program) ⟨ts.tokens, 0⟩ nodes j ∧ j.rest = [] ∧ root ∈ nodes ∧
      root.kind = .program := by
  -- the equation of the definition takes long to prove
  delta Tokens.tree? at h
  split at h
  · rename_i nodes stop hrun
    have hk := List.find?_some h
    exact ⟨nodes, _, derives_of_run hrun, rfl, List.mem_of_find?_eq_some h, by simpa using hk⟩
  · simp at h

theorem Source.tree_tokens {s : Source} {root : Node} (h : s.tree? = some root) :
    ∃ ts, s.tokens? = some ts ∧ ts.tree? = some root :=
  Option.bind_eq_some_iff.1 h

theorem Source.tree_kind {s : Source} {root : Node} (h : s.tree? = some root) : root.kind = .program := by
  obtain ⟨ts, -, ht⟩ := Source.tree_tokens h
  obtain ⟨_, _, _, _, _, hk⟩ := Tokens.tree_derives ht
  exact hk

/-- **Trees are shaped.** -/
theorem Source.tree_shaped {s : Source} {root : Node} (h : s.tree? = some root) : root.Shaped := by
  obtain ⟨ts, -, ht⟩ := Source.tree_tokens h
  obtain ⟨nodes, j, hd, -, hmem, -⟩ := Tokens.tree_derives ht
  exact (hd.shaped rules_shaped (by decide)).2 root hmem

/-- **Trees are in order.** -/
theorem Source.tree_inOrder {s : Source} {root : Node} (h : s.tree? = some root) : root.InOrder := by
  obtain ⟨ts, htokens, ht⟩ := Source.tree_tokens h
  obtain ⟨nodes, j, hd, hj, hmem, -⟩ := Tokens.tree_derives ht
  have after := Source.tokens_ascend htokens
  cases hd with
  | ref hd =>
    cases hd with
    | node hd =>
      have ascends := hd.ascends rules_wrapText (by decide) after
      rcases ascends.1 with ⟨rfl, rfl⟩ | took
      · obtain rfl := List.mem_singleton.1 hmem
        have empty : ts.tokens = [] := hj
        refine .mk ?_ (by simp)
        rw [Input.next, empty]
        exact le_rfl
      · exact (took.wrap after .program).nodes.inOrder root hmem

end CallLint
