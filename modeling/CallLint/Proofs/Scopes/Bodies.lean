/-
The bodies of a file as events. Bodies are collected from lawful trees, each from a node of a kind that has such a body
(`Body.Fits`), so the events of a body stand as the nodes of its tree do (`Fits.laid`), and none of them declares a
variable outside of all scopes (`Fits.quiet`). Lowering a body follows its events (`Body.lower_follows`). The code of a
method is lowered in the scope of its parameters, and parts of a block in one scope; only where the body ends are their
variables in force that the events have dropped, so there the scopes do not count (`Lower.Ends`).
-/
import CallLint.Proofs.References.Declared
import CallLint.Proofs.Scopes.Arranged
import CallLint.Proofs.Scopes.Bound

namespace CallLint

/-! ## Where bodies come from -/

/-- the body is a lawful node of a kind that has such a body -/
def Body.Fits (b : Body) : Prop :=
  b.node.Lawful ∧
    match b with
    | .method _ n =>
      n.kind = .methodDeclaration ∨ n.kind = .constructorDeclaration ∨ n.kind = .compactConstructorDeclaration
    | .field _ _ value => value.kind.content.isPlain = true
    | .block _ n => n.kind = .staticInitializer ∨ n.kind = .block ∨ n.kind = .enumConstant

theorem Body.From.fits {b : Body} (h : b.From Node.Lawful) : b.Fits := by
  cases h with
  | method hn hk => exact ⟨hn, hk⟩
  | block hn hk => exact ⟨hn, hk⟩
  | @field _ _ n declarator value hn hk hm hvalue =>
    obtain ⟨hmem, hrole⟩ := List.mem_filter.1 hm
    have kind : declarator.kind = .variableDeclarator := by
      rcases hn.shaped.declared (.inr hk) hmem with hd | hd
      · exact hd.2
      · exact absurd (by simpa using hrole) hd.1
    have hdeclarator := hn.child hmem
    have hchild := Node.child?_mem hvalue
    exact ⟨hdeclarator.child hchild, hdeclarator.regular.expression hchild (by rw [kind]; rfl)⟩

namespace Declarations

/-- all bodies fit -/
def Fit (d : Declarations) : Prop :=
  ∀ b ∈ d.bodies, b.Fits

theorem Fit.keptBySteps (s : Source) : KeptBySteps s Node.Lawful Fit where
  child := Node.Lawful.child
  body {d b} h hb _ := by
    intro c hc
    rcases Array.mem_push.1 hc with hc | rfl
    · exact h c hc
    · exact hb.fits
  field h _ _ _ _ _ := h
  method h _ _ := h
  type h _ _ _ _ := h

end Declarations

/-- the bodies of a file fit -/
theorem Source.declarationsOf_fit {s : Source} {root : Node} (h : s.tree? = some root) : (s.declarationsOf root).Fit := by
  have shaped := Source.tree_shaped h
  have inOrder := Source.tree_inOrder h
  have regular := Source.tree_regular h
  have lawful : ∀ n ∈ root.children, n.Lawful := fun n hn =>
    ⟨shaped.child hn, inOrder.child hn, regular.child hn, (inOrder.children.mem hn).2.1⟩
  have empty : (Declarations.ofNames (NameTable.ofImports (s.package? root) (s.imports root))).Fit := by
    simp [Declarations.Fit, Declarations.ofNames]
  exact (Declarations.Fit.keptBySteps s).collected lawful empty

/-! ## Events of bodies -/

namespace Body

variable {s : Source} {top n : Node} {scopes : List Node}

theorem kind_of_content {k : NodeKind} (h : k.content = .scoped ∨ k.content = .members) : k.isTypeDeclaration = false := by
  revert h
  cases k <;> decide

/-- a part of a body -/
theorem partEvents_laid (hn : n.Stands top scopes) (hk : n.kind.isTypeDeclaration = false) :
    Laid s top scopes n.start n.stop (partEvents s n) := by
  have keeps := Trace.ofLevels_keeps s top nestingLimit
  unfold partEvents Node.scoped
  split_ifs with hopen
  · exact keeps.scope hn hk hopen
  · exact keeps.group hn hk (by simpa using hopen)

/-- what opens a scope leaves no variable -/
theorem scoped_quiet (hopen : n.kind.opensScope = true) (es : List Event) : Quiet (n.scoped es) := by
  rw [Node.scoped, if_pos hopen]
  exact quiet_scope n es

theorem partEvents_quiet (hn : n.Regular) (hk : n.kind.opensScope = true ∨ n.kind.isClosed = true) :
    Quiet (partEvents s n) := by
  by_cases hopen : n.kind.opensScope = true
  · exact scoped_quiet hopen _
  · rw [partEvents, Node.scoped, if_neg hopen]
    exact (Trace.ofLevels_quiet s nestingLimit).children hn (hk.resolve_left hopen)

/-- the code of a method stands in its node -/
theorem routineCode_laid (hn : n.Stands top scopes) (hk : n.kind.hasBody = true) {code : Node}
    (hc : n.child? .body = some code) :
    code.kind.opensScope = true ∧ Laid s top (n.opened scopes) n.start n.stop (partEvents s code) := by
  have hmem := Node.child?_mem hc
  have content := hn.regular.body hmem (Node.child?_role hc) hk
  have inside := hn.inOrder.children.mem hmem
  exact ⟨NodeKind.opensScope_body content,
    (partEvents_laid (hn.child hmem) (kind_of_content content)).mono inside.1 inside.2.2⟩

theorem routineEvents_laid (hn : n.Stands top scopes)
    (hk : n.kind = .methodDeclaration ∨ n.kind = .constructorDeclaration ∨ n.kind = .compactConstructorDeclaration) :
    Laid s top scopes n.start n.stop (routineEvents s n) ∧ Quiet (routineEvents s n) := by
  have hasBody : n.kind.hasBody = true := by rcases hk with hk | hk | hk <;> (rw [hk]; rfl)
  obtain ⟨code, events, laid, quiet⟩ : ∃ code, routineEvents s n = n.scoped (Trace.parametersOf s n ++ code) ∧
      Laid s top (n.opened scopes) n.start n.stop code ∧ Quiet code := by
    unfold routineEvents
    cases hc : n.child? .body with
    | none => exact ⟨[], rfl, Laid.nil s top (n.opened scopes) n.start n.stop, by simp [Quiet]⟩
    | some c =>
      have body := routineCode_laid (s := s) hn hasBody hc
      exact ⟨partEvents s c, rfl, body.2, scoped_quiet body.1 _⟩
  rw [events]
  by_cases hopen : n.kind.opensScope = true
  · refine ⟨?_, scoped_quiet hopen _⟩
    rw [Node.opened_of_open hopen] at laid
    rw [Node.scoped, if_pos hopen]
    exact .scope hn.nonempty ((Trace.parametersOf_laid hn hopen).append laid le_rfl hn.nonempty.le)
  · -- a compact constructor has no parameters, and its code opens a scope
    have compact : n.kind = .compactConstructorDeclaration := by
      rcases hk with hk | hk | hk
      · exact absurd (by rw [hk]; rfl) hopen
      · exact absurd (by rw [hk]; rfl) hopen
      · exact hk
    have parameters : Trace.parametersOf s n = [] := by
      unfold Trace.parametersOf
      cases hp : n.child? .parameters with
      | none => rfl
      | some list => exact absurd compact (hn.regular.parameters (Node.child?_mem hp) (Node.child?_role hp)).1
    rw [Node.opened_of_closed (by simpa using hopen)] at laid
    rw [Node.scoped, if_neg hopen, parameters, List.nil_append]
    exact ⟨laid, quiet⟩

/-- the parts of a block: the arguments and the body of an enum constant, or the block itself -/
theorem mem_parts (hn : n.Regular) (hk : n.kind = .staticInitializer ∨ n.kind = .block ∨ n.kind = .enumConstant) {m : Node}
    (hm : m ∈ parts n) :
    m.Regular ∧ m.kind.isTypeDeclaration = false ∧ (m.kind.opensScope = true ∨ m.kind.isClosed = true) := by
  by_cases henum : n.kind = .enumConstant
  · rw [parts, if_pos (by simpa using henum)] at hm
    obtain ⟨part, hpart, hm⟩ := List.mem_filterMap.1 hm
    obtain rfl : part = some m := hm
    rcases List.mem_pair.1 hpart with hc | hc
    · have hmem := Node.child?_mem hc.symm
      have content := hn.arguments hmem (Node.child?_role hc.symm) (by rw [henum]; rfl)
      rw [NodeKind.eq_argumentList content]
      exact ⟨hn.child hmem, rfl, .inr rfl⟩
    · have hmem := Node.child?_mem hc.symm
      have content := hn.body hmem (Node.child?_role hc.symm) (by rw [henum]; rfl)
      exact ⟨hn.child hmem, kind_of_content content, .inl (NodeKind.opensScope_body content)⟩
  · rw [parts, if_neg (by simpa using henum)] at hm
    obtain rfl := List.mem_singleton.1 hm
    rcases hk with hk | hk | hk
    · rw [hk]
      exact ⟨hn, rfl, .inr rfl⟩
    · rw [hk]
      exact ⟨hn, rfl, .inl rfl⟩
    · exact absurd hk henum

theorem blockEvents_quiet (hn : n.Regular) (hk : n.kind = .staticInitializer ∨ n.kind = .block ∨ n.kind = .enumConstant) :
    Quiet ((parts n).flatMap (partEvents s)) :=
  .flatMap fun _ hm =>
    have ⟨hm, _, hkind⟩ := mem_parts hn hk hm
    partEvents_quiet hm hkind

theorem blockEvents_laid (hn : n.Stands top scopes)
    (hk : n.kind = .staticInitializer ∨ n.kind = .block ∨ n.kind = .enumConstant) :
    Laid s top scopes n.start n.stop ((parts n).flatMap (partEvents s)) := by
  have parts_mem := fun m => mem_parts (m := m) hn.regular hk
  by_cases henum : n.kind = .enumConstant
  · have hopen : n.kind.opensScope = false := by rw [henum]; rfl
    have part {r : Role} {m : Node} (hm : n.child? r = some m) (hmem : m ∈ parts n) :
        Laid s top scopes m.start m.stop (partEvents s m) ∧ Quiet (partEvents s m) ∧ n.start ≤ m.start ∧ m.stop ≤ n.stop := by
      have hc := Node.child?_mem hm
      have ⟨hreg, htype, hkind⟩ := parts_mem m hmem
      exact ⟨partEvents_laid (hn.part hopen hc) htype, partEvents_quiet hreg hkind, Trace.inside hn hc⟩
    have all : parts n = [n.child? .arguments, n.child? .body].filterMap id := if_pos (by simpa using henum)
    rw [all] at part ⊢
    cases ha : n.child? .arguments with
    | none =>
      cases hb : n.child? .body with
      | none => exact .nil _ _ _ _ _
      | some body =>
        have ⟨laid, _, hin⟩ := part hb (by simp [hb])
        simpa using laid.mono hin.1 hin.2
    | some arguments =>
      have ⟨laid, quiet, hin⟩ := part ha (by simp [ha])
      cases hb : n.child? .body with
      | none => simpa using laid.mono hin.1 hin.2
      | some body =>
        have ⟨laid', quiet', hin'⟩ := part hb (by simp [hb])
        simpa using laid.both laid' quiet quiet' (hn.inOrder.apart_roles ha hb (by decide)) hin hin'
  · have own : parts n = [n] := if_neg (by simpa using henum)
    rw [own, List.flatMap_singleton]
    exact partEvents_laid hn (parts_mem n (by rw [own]; exact List.mem_cons_self)).2.1

variable {b : Body}

/-- **The events of a body stand as the nodes of its tree.** -/
theorem Fits.laid (h : b.Fits) : Laid s b.node [] b.node.start b.node.stop (b.events s) := by
  obtain ⟨hn, hk⟩ := h
  cases b with
  | method id n => exact (routineEvents_laid hn.stands hk).1
  | field id owner value => exact (Trace.ofLevels_keeps s value nestingLimit).expression value [] hn.stands hk
  | block owner n => exact blockEvents_laid hn.stands hk

/-- all variables of a body lie in scopes in it -/
theorem Fits.quiet (h : b.Fits) : Quiet (b.events s) := by
  obtain ⟨hn, hk⟩ := h
  cases b with
  | method id n => exact (routineEvents_laid hn.stands hk).2
  | field id owner value => exact (Trace.ofLevels_quiet s nestingLimit).expression value hn.regular hk
  | block owner n => exact blockEvents_quiet hn.regular hk

theorem Fits.uses (h : b.Fits) : ∀ x ∈ b.uses s, x.Stands s b.node :=
  Event.usesIn_stand _ h.laid.arranged

theorem Fits.entries (h : b.Fits) : ∀ d ∈ b.entries s, d.Stands s b.node ∧ d.scopes ≠ [] := by
  intro d hd
  refine ⟨Event.entriesIn_stand _ h.laid.arranged d hd, ?_⟩
  obtain ⟨e, he, hof⟩ := Event.entriesIn_of _ _ d hd
  have quiet := h.quiet e he
  cases e with
  | use _ _ => exact hof.elim
  | declare _ => cases quiet
  | scope n _ =>
    have inner : [n] <:+ d.scopes := hof
    rintro hnil
    rw [hnil] at inner
    simpa using inner.length_le

/-- what is in force where a body uses a name -/
theorem Fits.lists (h : b.Fits) {p : Use × List (Nat × Entry)} (hp : p ∈ Event.seenIn [] (b.events s) Env.empty) :
    Lists (b.entries s) p.1 0 p.2 := by
  obtain ⟨-, live, hlive, lists⟩ := Event.seenIn_lawful _ [] Env.empty h.laid.arranged h.laid.clear p hp
  rw [Event.afterIn_entries] at lists
  rw [hlive, show live ++ Env.empty.live = live from List.append_nil live]
  exact lists

end Body

/-! ## Where bodies end -/

namespace Lower

/-- the same as `Follows`, but for the scopes after it -/
def Ends {α : Type} (s : Source) (vs : List VariableDecl) (outside : String → Option VariableId) (scopes : List Node)
    (es : List Event) (action : Lower α) (P : List (String × Option VariableId) → α → Prop) : Prop :=
  ∀ st env, st.Mirrors s vs env →
    Safe True (fun r => (∃ ws, r.2.variableDecls.toList = vs ++ ws ∧
        List.Forall₂ (fun w d => w.Is s d.declared) ws (Event.afterIn scopes es env).entries) ∧
      P ((Event.seenIn scopes es env).map (Use.bound vs.length outside)) r.1) (action st)

variable {α β : Type} {s : Source} {vs : List VariableDecl} {outside : String → Option VariableId} {scopes : List Node}
  {es fs : List Event} {x : Lower α} {P : List (String × Option VariableId) → α → Prop}
  {R : List (String × Option VariableId) → β → Prop}

theorem Follows.ends (h : Follows s vs outside scopes es x P) : Ends s vs outside scopes es x P :=
  fun st env hst => (h st env hst).mono id fun _ ⟨hr, _, hp⟩ => ⟨hr.decls, hp⟩

theorem Ends.pure {a : α} (h : P [] a) : Ends s vs outside scopes [] (Pure.pure a) P :=
  (Follows.pure h).ends

theorem Follows.thenEnds {f : α → Lower β} (h : Follows s vs outside scopes es x P)
    (k : ∀ xs a, P xs a → Ends s vs outside scopes fs (f a) fun ys b => R (xs ++ ys) b) :
    Ends s vs outside scopes (es ++ fs) (x >>= f) R := by
  intro st env hst
  refine (h st env hst).bind fun r ⟨hr, _, hp⟩ => ?_
  rw [Event.afterIn_append, Event.seenIn_append, List.map_append]
  exact k _ r.1 hp r.2 _ hr

theorem Ends.give {f : α → β} (h : Ends s vs outside scopes es x P) (k : ∀ xs a, P xs a → R xs (f a)) :
    Ends s vs outside scopes es (x >>= fun a => Pure.pure (f a)) R :=
  fun st env hst => (h st env hst).bind fun r ⟨hr, hp⟩ => ⟨hr, k _ r.1 hp⟩

theorem Ends.inScope (h : Ends s vs outside scopes es x P) : Ends s vs outside scopes es (Lower.inScope x) P := by
  intro st env hst
  have opened : LowerState.Mirrors s vs { st with scopes := [] :: st.scopes } env := ⟨hst.decls, hst.live⟩
  exact (h _ env opened).bind fun r hr => hr

/-- what a scope at the end holds may stay in force -/
theorem Ends.scoped {n : Node} (h : Ends s vs outside (n.opened scopes) es x P) :
    Ends s vs outside scopes (n.scoped es) x P := by
  unfold Node.scoped
  split_ifs with hopen
  · rw [Node.opened_of_open hopen] at h
    intro st env hst
    refine (h st env hst).mono id fun r ⟨hr, hp⟩ => ⟨hr, ?_⟩
    rw [Event.seenIn, Event.seen, Event.seenIn, List.append_nil]
    exact hp
  · rwa [Node.opened_of_closed (by simpa using hopen)] at h

end Lower

namespace Body

open Lower

variable {c : LowerContext} {vs : List VariableDecl} {scopes : List Node}

/-- the parameters of a method come before its code, and are no names -/
theorem parameters_thenEnds (n list : Node) {α : Type} {es : List Event} {code : Lower α}
    {P : List (String × Option VariableId) → α → Prop}
    (h : Ends c.source vs c.outside (n.opened scopes) es code P) :
    Ends c.source vs c.outside (n.opened scopes) (Trace.parameters c.source n list ++ es)
      (declareParameters c list >>= fun _ => code) P := by
  refine (Follows.declareParameters rfl n list).thenEnds fun xs _ hxs => ?_
  subst hxs
  exact h

/-- a method ends with its code, in the scope of its parameters -/
theorem routine_ends (n : Node) :
    Ends c.source vs c.outside scopes (routineEvents c.source n) (routine (Inner.ofLevels nestingLimit) c n)
      fun xs es => namesIn es = xs := by
  have inner := Inner.ofLevels_follows c.source vs c.outside nestingLimit
  unfold routine routineEvents Trace.parametersOf
  refine .inScope (.scoped ?_)
  cases n.child? .body with
  | none =>
    cases n.child? .parameters with
    | none => exact .pure rfl
    | some list => exact parameters_thenEnds n list (.pure rfl)
  | some code =>
    cases n.child? .parameters with
    | none => exact .scoped inner.children.ends
    | some list => exact parameters_thenEnds n list (.scoped inner.children.ends)

/-- a block ends with its last part, when the parts before open no scopes -/
theorem parts_end {ms : List Node} (hms : ms.Pairwise fun m _ => m.kind.opensScope = false) :
    Ends c.source vs c.outside scopes (ms.flatMap (partEvents c.source))
      (ms.mapM ((Inner.ofLevels nestingLimit).children c)) fun xs ess => namesIn ess.flatten = xs := by
  have inner := Inner.ofLevels_follows c.source vs c.outside nestingLimit
  induction ms with
  | nil => exact .pure rfl
  | cons m ms ih =>
    obtain ⟨hm, hms⟩ := List.pairwise_cons.1 hms
    rw [List.mapM_cons, List.flatMap_cons]
    cases ms with
    | nil =>
      rw [List.flatMap_nil, List.append_nil, List.mapM_nil]
      refine (Ends.scoped inner.children.ends).give fun xs es hes => ?_
      rwa [List.flatten_singleton]
    | cons m' ms =>
      have hopen := hm m' List.mem_cons_self
      rw [partEvents, Node.scoped, if_neg (by simp [hopen])]
      refine inner.children.thenEnds fun xs es hes => ?_
      refine (ih hms).give fun ys ess hess => ?_
      rw [List.flatten_cons, namesIn_append, hes, hess]

theorem parts_pairwise {n : Node} (hn : n.Regular) : (parts n).Pairwise fun m _ => m.kind.opensScope = false := by
  unfold parts
  split_ifs with henum
  · have arguments : ∀ m, n.child? .arguments = some m → m.kind.opensScope = false := by
      intro m hm
      refine NodeKind.opensScope_arguments (hn.arguments (Node.child?_mem hm) (Node.child?_role hm) ?_)
      rw [show n.kind = .enumConstant by simpa using henum]
      rfl
    cases ha : n.child? .arguments with
    | none => cases n.child? .body <;> simp
    | some m => cases n.child? .body <;> simp [arguments m ha]
  · exact List.pairwise_singleton _ _

/-- the type in which the names of a body are looked up -/
def owner? (u : CompilationUnit) : Body → Option TypeId
  | .method id _ => (u.methodAt? id).map (·.owner)
  | .field _ owner _ => some owner
  | .block owner _ => some owner

/-- **Lowering a body follows its events.** The variables that it declares come after those of the unit, and each name is
bound as the walk finds it. -/
theorem lower_follows {s : Source} {d : Declarations} {u : CompilationUnit} {b : Body} (hb : b.Fits) {owner : TypeId}
    (ho : b.owner? u = some owner) :
    Safe True (fun r => (∃ ws, r.2.variableDecls.toList = u.variableDecls.toList ++ ws ∧
        List.Forall₂ (fun w d => w.Is s d.declared) ws (b.entries s)) ∧
      namesIn r.1 = (Event.seenIn [] (b.events s) Env.empty).map
        (Use.bound u.variableDecls.size (LowerContext.mk s d owner false).outside)) (b.lower s d u) := by
  have start : LowerState.Mirrors s u.variableDecls.toList ⟨u.variableDecls, []⟩ Env.empty :=
    ⟨⟨[], (List.append_nil _).symm, .nil⟩, rfl⟩
  have entries : (Event.afterIn [] (b.events s) Env.empty).entries = b.entries s := Event.afterIn_entries _ _ _
  rw [← entries, ← Array.length_toList]
  cases b with
  | method id n =>
    obtain ⟨m, hm, rfl⟩ := Option.map_eq_some_iff.1 ho
    rw [lower, Body.code, hm]
    exact routine_ends (c := ⟨s, d, m.owner, false⟩) n _ _ start
  | field id owner' value =>
    obtain rfl : owner' = owner := Option.some.inj ho
    have code := (Inner.ofLevels_follows s u.variableDecls.toList _ nestingLimit).expression ⟨s, d, owner', false⟩ value []
      rfl rfl
    exact (code.ends _ _ start).bind fun r hr => ⟨hr.1, (namesIn_singleton _).trans hr.2⟩
  | block owner' n =>
    obtain rfl : owner' = owner := Option.some.inj ho
    have code : Ends s u.variableDecls.toList _ [] _ (Lower.inScope _) _ :=
      (parts_end (c := ⟨s, d, owner', false⟩) (parts_pairwise hb.1.regular)).inScope
    exact (code _ _ start).bind fun r hr => ⟨hr.1, hr.2⟩

end Body

end CallLint
