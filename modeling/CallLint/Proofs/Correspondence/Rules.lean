/-
What the rules say of matching units: the same. Constants, the search for assertions and the tests for JUnit 3 look at
ids only to find what they stand for, so matching expressions have the same constant, and corresponding methods are both
reported or both not. Lists of findings correspond in the order of the ids that are asked for (`reportedSpans_match`);
calls come in the order of the text, when corresponding spans do (`calls_match`).
-/
import CallLint.Proofs.AssertionReach
import CallLint.Proofs.CallSites.Units
import CallLint.Proofs.Correspondence.Units
import CallLint.Rule.Basic

namespace CallLint

/-- corresponding spans start in the same order -/
def Correspondence.Ordered (R : Correspondence) : Prop :=
  ∀ {a a' b b' : Span}, R.spans a a' → R.spans b b' → a'.startByte ≤ b'.startByte → a.startByte ≤ b.startByte

/-! ## Constants -/

theorem Expr.Matches.constantWith {R : Correspondence} {value value' : VariableId → Option Literal}
    (hv : ∀ a b, R.vars a b → value a = value' b) :
    ∀ (e : Expr) {e' : Expr}, e.Matches R e' → e.constantWith value = e'.constantWith value'
  | .literal _, _, h => by
    cases h
    rfl
  | .name _ _, _, h => by
    cases h with
    | name _ hid =>
      cases hid with
      | some hid => exact hv _ _ hid
      | none => rfl
  | .fieldAccess _ _ _, _, h => by
    cases h with
    | fieldAccess _ _ hid =>
      cases hid with
      | some hid => exact hv _ _ hid
      | none => rfl
  | .binary _ left right, _, h => by
    cases h with
    | binary _ he hf =>
      rw [Expr.constantWith, Expr.constantWith, Expr.Matches.constantWith hv left he,
        Expr.Matches.constantWith hv right hf]
  | .call _, _, h => by
    cases h
    rfl
  | .other _ _, _, h => by
    cases h
    rfl

namespace CompilationUnit.Matches

variable {R : Correspondence} {u u' : CompilationUnit}

theorem variableValue (h : u.Matches R u') (depth : Nat) {a b : VariableId} (hab : R.vars a b) :
    u.variableValue depth a = u'.variableValue depth b := by
  induction depth generalizing a b with
  | zero => rfl
  | succ depth ih =>
    obtain ⟨v, v', hv, hv', hm⟩ := h.vars.related hab
    rw [CompilationUnit.variableValue, CompilationUnit.variableValue, hv, hv']
    dsimp only
    rw [hm.isFinal]
    rcases optionRel_cases hm.initializer with ⟨hi, hi'⟩ | ⟨e, e', hi, hi', he⟩
    · rw [hi, hi']
    · simp only [hi, hi', he.constantWith fun _ _ => ih]

/-- matching expressions have the same value -/
theorem constant? (h : u.Matches R u') {e e' : Expr} (he : e.Matches R e') : u.constant? e = u'.constant? e' :=
  he.constantWith fun _ _ => h.variableValue referenceLimit

/-! ## Assertions -/

theorem visitedCalls (h : u.Matches R u') {a b : MethodId} (hab : R.methods a b) :
    Option.Rel (List.Forall₂ (Call.Matches R)) ((u.body? a).map CallLint.visitedCalls)
      ((u'.body? b).map CallLint.visitedCalls) := by
  obtain ⟨m, m', hm, hm', hmm⟩ := h.methods.related hab
  rw [CompilationUnit.body?, CompilationUnit.body?, hm, hm']
  refine optionRel_map (fun es es' hes => ?_) hmm.body
  rw [visitedCalls_eq, visitedCalls_eq]
  exact listMatches_calls es hes

theorem holdsAssertion_iff {catalog : Catalog} {a : MethodId} :
    u.HoldsAssertion catalog a ↔
      ∃ cs, (u.body? a).map CallLint.visitedCalls = some cs ∧ ∃ c ∈ cs, catalog.covers c.site = true := by
  simp only [HoldsAssertion, Option.map_eq_some_iff]
  grind

theorem invokes_iff {a t : MethodId} :
    u.Invokes a t ↔ ∃ cs, (u.body? a).map CallLint.visitedCalls = some cs ∧ ∃ c ∈ cs, c.target = some t := by
  simp only [Invokes, Option.map_eq_some_iff]
  grind

theorem holdsAssertion (h : u.Matches R u') {catalog : Catalog} {a b : MethodId} (hab : R.methods a b) :
    u.HoldsAssertion catalog a ↔ u'.HoldsAssertion catalog b := by
  rw [holdsAssertion_iff, holdsAssertion_iff]
  rcases optionRel_cases (h.visitedCalls hab) with ⟨hb, hb'⟩ | ⟨cs, cs', hb, hb', hcs⟩
  · simp [hb, hb']
  · simp only [hb, hb', Option.some.injEq, exists_eq_left']
    constructor
    · rintro ⟨c, hc, hcov⟩
      obtain ⟨c', hc', hcc⟩ := forall₂_mem_left hcs hc
      exact ⟨c', hc', hcc.site ▸ hcov⟩
    · rintro ⟨c', hc', hcov⟩
      obtain ⟨c, hc, hcc⟩ := forall₂_mem_right hcs hc'
      exact ⟨c, hc, hcc.site ▸ hcov⟩

theorem target {c c' : Call Expr} (h : c.Matches R c') : Option.Rel R.methods c.target c'.target := by
  cases h with
  | call _ _ _ _ _ ht _ _ => exact ht

/-- what holds of the targets of one method's calls holds of the other's -/
theorem exists_invokes (h : u.Matches R u') {p q : MethodId → Prop} (hpq : ∀ s t, R.methods s t → (p s ↔ q t))
    {a b : MethodId} (hab : R.methods a b) : (∃ t, u.Invokes a t ∧ p t) ↔ ∃ t, u'.Invokes b t ∧ q t := by
  simp only [invokes_iff]
  rcases optionRel_cases (h.visitedCalls hab) with ⟨hb, hb'⟩ | ⟨cs, cs', hb, hb', hcs⟩
  · simp [hb, hb']
  · simp only [hb, hb', Option.some.injEq, exists_eq_left']
    constructor
    · rintro ⟨s, ⟨c, hc, hs⟩, hp⟩
      obtain ⟨c', hc', hcc⟩ := forall₂_mem_left hcs hc
      rcases optionRel_cases (target hcc) with ⟨hnone, -⟩ | ⟨s', t, hs', ht, hst⟩
      · simp [hnone] at hs
      · obtain rfl : s' = s := by simpa [hs'] using hs
        exact ⟨t, ⟨c', hc', ht⟩, (hpq s' t hst).1 hp⟩
    · rintro ⟨t, ⟨c', hc', ht⟩, hq⟩
      obtain ⟨c, hc, hcc⟩ := forall₂_mem_right hcs hc'
      rcases optionRel_cases (target hcc) with ⟨-, hnone⟩ | ⟨s, t', hs, ht', hst⟩
      · simp [hnone] at ht
      · obtain rfl : t' = t := by simpa [ht'] using ht
        exact ⟨s, ⟨c, hc, hs⟩, (hpq s t' hst).2 hq⟩

end CompilationUnit.Matches

namespace CompilationUnit

/-- with no call left, only the method's own body counts -/
theorem asserts_zero {u : CompilationUnit} {catalog : Catalog} {id : MethodId} :
    u.asserts catalog id 0 = true ↔ u.HoldsAssertion catalog id := by
  constructor
  · intro h
    obtain ⟨path, hl, hp⟩ := search_found h
    obtain rfl := List.eq_nil_of_length_eq_zero (Nat.le_zero.1 hl)
    exact hp.2
  · exact fun h => asserts_of_chain (le_refl ([] : List MethodId).length) ⟨List.isChain_singleton id, h⟩

/-- with one call more, the targets of the body's calls count as well -/
theorem asserts_succ {u : CompilationUnit} {catalog : Catalog} {id : MethodId} {depth : Nat} :
    u.asserts catalog id (depth + 1) = true ↔
      u.HoldsAssertion catalog id ∨ ∃ t, u.Invokes id t ∧ u.asserts catalog t depth = true := by
  constructor
  · intro h
    obtain ⟨path, hl, hchain, hlast⟩ := search_found h
    cases path with
    | nil => exact Or.inl hlast
    | cons t path =>
      have behind : u.ChainToAssertion catalog t path := ⟨hchain.tail, by simpa using hlast⟩
      exact Or.inr ⟨t, hchain.rel, asserts_of_chain (Nat.le_of_succ_le_succ hl) behind⟩
  · rintro (h | ⟨t, ht, h⟩)
    · exact asserts_of_chain (Nat.zero_le ([] : List MethodId).length |>.trans (Nat.zero_le _)) ⟨List.isChain_singleton id, h⟩
    · obtain ⟨path, hl, hp⟩ := search_found h
      have longer : (t :: path).length ≤ depth + 1 := Nat.succ_le_succ hl
      exact asserts_of_chain longer (hp.cons ht)

namespace Matches

variable {R : Correspondence} {u u' : CompilationUnit}

/-- corresponding methods reach the same assertions -/
theorem asserts (h : u.Matches R u') (catalog : Catalog) (depth : Nat) {a b : MethodId} (hab : R.methods a b) :
    u.asserts catalog a depth = u'.asserts catalog b depth := by
  induction depth generalizing a b with
  | zero => rw [Bool.eq_iff_iff, asserts_zero, asserts_zero, h.holdsAssertion hab]
  | succ depth ih =>
    rw [Bool.eq_iff_iff, asserts_succ, asserts_succ, h.holdsAssertion hab,
      h.exists_invokes (fun s t hst => by rw [ih hst]) hab]

/-! ## Tests -/

theorem typeCount (h : u.Matches R u') : u.types.size = u'.types.size :=
  h.types.size_eq TypeId.mk_bijective (fun _ => rfl) fun _ => rfl

theorem extendsTestCase (h : u.Matches R u') (steps : Nat) {a b : TypeId} (hab : R.types a b) :
    MissingAssertions.extendsTestCase u steps a = MissingAssertions.extendsTestCase u' steps b := by
  induction steps generalizing a b with
  | zero => rfl
  | succ steps ih =>
    obtain ⟨t, t', ht, ht', hm⟩ := h.types.related hab
    rw [MissingAssertions.extendsTestCase, MissingAssertions.extendsTestCase, ht, ht']
    dsimp only
    rw [TypeDecl.superclassSimpleName, TypeDecl.superclassSimpleName, hm.superclass]
    rcases optionRel_cases hm.superclassId with ⟨hs, hs'⟩ | ⟨s, s', hs, hs', hss⟩
    · rw [hs, hs']
    · simp only [hs, hs', ih hss]

theorem isTest (h : u.Matches R u') {m m' : MethodDecl} (hm : m.Matches R m') :
    MissingAssertions.isTest u m = MissingAssertions.isTest u' m' := by
  have body : m.body.isSome = m'.body.isSome := by
    rcases optionRel_cases hm.body with ⟨hb, hb'⟩ | ⟨_, _, hb, hb', -⟩ <;> rw [hb, hb']
    rfl
  simp only [MissingAssertions.isTest, MissingAssertions.isNamedTest, MethodDecl.isConstructor, hm.isAbstract, body,
    hm.annotations, hm.isPublic, hm.parameterCount, hm.name, h.typeCount, h.extendsTestCase _ hm.owner]

theorem isViolation (h : u.Matches R u') (catalog : Catalog) (depth : Nat) {a b : MethodId} (hab : R.methods a b) :
    MissingAssertions.isViolation u catalog depth a = MissingAssertions.isViolation u' catalog depth b := by
  obtain ⟨m, m', hm, hm', hmm⟩ := h.methods.related hab
  rw [MissingAssertions.isViolation, MissingAssertions.isViolation, hm, hm']
  dsimp only
  rw [h.isTest hmm, h.asserts catalog depth hab]

end Matches

/-- locations of those of some methods that are reported -/
def reportedSpans (u : CompilationUnit) (catalog : Catalog) (depth : Nat) (ids : List MethodId) : List Span :=
  (ids.filter (MissingAssertions.isViolation u catalog depth)).filterMap fun id => (u.methodAt? id).map (·.nameSpan)

namespace Matches

variable {R : Correspondence} {u u' : CompilationUnit}

theorem reportedSpans_match (h : u.Matches R u') (catalog : Catalog) (depth : Nat) {ids ids' : List MethodId}
    (hids : List.Forall₂ R.methods ids ids') :
    List.Forall₂ R.spans (u.reportedSpans catalog depth ids) (u'.reportedSpans catalog depth ids') := by
  have same (a b : MethodId) (hab : R.methods a b) :
      MissingAssertions.isViolation u catalog depth a = true ↔ MissingAssertions.isViolation u' catalog depth b = true := by
    rw [h.isViolation catalog depth hab]
  refine List.rel_filterMap (R := R.methods) (fun a b hab => ?_) (List.rel_filter (fun a b hab => same a b hab) hids)
  obtain ⟨m, m', hm, hm', hmm⟩ := h.methods.related hab
  rw [hm, hm']
  exact .some hmm.nameSpan

/-- the same tests are reported, in the order in which each unit lists its methods -/
theorem missingAssertions (h : u.Matches R u') (catalog : Catalog) (depth : Nat) :
    PermRel R.spans (MissingAssertions.violations u catalog depth) (MissingAssertions.violations u' catalog depth) := by
  obtain ⟨ks, hp, hf⟩ := h.methods.indices MethodId.mk_bijective (fun _ => rfl) fun _ => rfl
  exact ⟨u.reportedSpans catalog depth ks, (hp.filter _).filterMap _, h.reportedSpans_match catalog depth hf⟩

end Matches

/-! ## Calls in the order of the text -/

/-- no two roots start at one byte -/
theorem unsortedRoots_nodup {u : CompilationUnit} {es : List (Nat × List Written)} (hp : u.entries.Perm es)
    (hs : (es.map (·.1)).Pairwise (· < ·)) : (u.unsortedRoots.map (·.1)).Nodup := by
  have starts := hp.map (·.1)
  rw [entries, List.map_map] at starts
  exact starts.nodup_iff.2 (hs.imp fun h => h.ne)

namespace Matches

variable {R : Correspondence} {u u' : CompilationUnit}

/-- bodies at corresponding places with matching code -/
def RootMatches (R : Correspondence) (a b : Nat × List Expr) : Prop :=
  (∃ s s', R.spans s s' ∧ s.startByte = a.1 ∧ s'.startByte = b.1) ∧ List.Forall₂ (Expr.Matches R) a.2 b.2

theorem unsortedRoots (h : u.Matches R u') : PermRel (RootMatches R) u.unsortedRoots u'.unsortedRoots := by
  refine .append (.append ?_ ?_) ?_
  · refine (h.methods.toList MethodId.mk_bijective (fun _ => rfl) fun _ => rfl).filterMap fun m m' hm => ?_
    exact optionRel_map (fun _ _ hes => ⟨⟨_, _, hm.span, rfl, rfl⟩, hes⟩) hm.body
  · rw [fieldRoots_eq, fieldRoots_eq]
    refine (h.vars.toList VariableId.mk_bijective (fun _ => rfl) fun _ => rfl).filterMap fun v v' hv => ?_
    rw [fieldRoot?, fieldRoot?, hv.kind]
    split_ifs
    · exact optionRel_map (fun _ _ he => ⟨⟨_, _, hv.span, rfl, rfl⟩, .cons he .nil⟩) hv.initializer
    · exact .none
  · exact h.blocks.map fun b b' hb => ⟨⟨_, _, hb.span, rfl, rfl⟩, hb.body⟩

/-- the calls of both units match, in the order of the text -/
theorem calls_match (h : u.Matches R u') (ho : R.Ordered) (hd : (u.unsortedRoots.map (·.1)).Nodup) :
    List.Forall₂ (Call.Matches R) (u.roots.flatMap listCalls) (u'.roots.flatMap listCalls) := by
  have unsorted : PermRel (RootMatches R) u.sortedRoots u'.sortedRoots := by
    obtain ⟨cs, hp, hf⟩ := h.unsortedRoots.perm_right u'.sortedRoots_perm.symm
    exact ⟨cs, u.sortedRoots_perm.trans hp, hf⟩
  have sorted : List.Forall₂ (RootMatches R) u.sortedRoots u'.sortedRoots := by
    refine forall₂_of_sorted (·.1) (·.1) unsorted ?_ ((u.sortedRoots_perm.map _).nodup_iff.2 hd) u.sortedRoots_sorted
      u'.sortedRoots_sorted
    rintro a b c d ⟨⟨s, s', hs, ha, hb⟩, -⟩ ⟨⟨t, t', ht, hc, hd⟩, -⟩ hle
    rw [← ha, ← hc]
    exact ho hs ht (by rwa [hb, hd])
  change List.Forall₂ _ ((u.sortedRoots.map (·.2)).flatMap _) ((u'.sortedRoots.map (·.2)).flatMap _)
  rw [List.flatMap_map, List.flatMap_map]
  exact List.rel_flatMap sorted fun a b hab => listMatches_calls a.2 hab.2

end Matches

/-- the same reflective calls are reported, in the order of the text -/
theorem Matches.dynamicCode {R : Correspondence} {u u' : CompilationUnit} (h : u.Matches R u') (ho : R.Ordered)
    (hd : (u.unsortedRoots.map (·.1)).Nodup) :
    List.Forall₂ R.spans (DynamicCode.violations u) (DynamicCode.violations u') := by
  rw [DynamicCode.violations, DynamicCode.violations, matching_eq, matching_eq]
  have name (c c' : Call Expr) (hc : c.Matches R c') :
      DynamicCode.hasConstantName u c = DynamicCode.hasConstantName u' c' := by
    cases hc with
    | call _ _ _ ha _ _ _ _ =>
      cases ha with
      | nil => rfl
      | cons he _ => simp [DynamicCode.hasConstantName, h.constant? he]
  refine List.rel_map (R := Call.Matches R) (fun c c' hc => ?_) (List.rel_filter (fun c c' hc => ?_)
    (List.rel_filter (fun c c' hc => ?_) (h.calls_match ho hd)))
  · cases hc with
    | call _ _ _ _ _ _ hn _ => exact hn
  · simp [name c c' hc]
  · simp [hc.site]

end CompilationUnit

end CallLint
