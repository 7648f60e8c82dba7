/-
The spans of a unit. Each of them is that of a node of the tree (`CompilationUnit.ofTree_spans`). This follows from the
correspondence of units: a tree means the same as itself also when spans correspond to themselves only if they are those
of nodes, so its unit matches itself in this way, and then each span in it corresponds to itself.

A call or a method is named by a child of its node, or by the node itself where there is no such child, so its name
stands inside it (`CompilationUnit.ofTree_names`).
-/
import CallLint.Proofs.Layout.Units
import CallLint.Proofs.Owners.Units
import CallLint.Proofs.Positions.Extents

namespace CallLint

namespace CompilationUnit

/-- the code of the unit: bodies of methods, initializers of variables and initializer blocks -/
def code (u : CompilationUnit) : List Expr :=
  u.methods.toList.flatMap (fun m => m.body.getD []) ++ u.variableDecls.toList.flatMap (fun v => v.initializer.toList) ++
    u.blocks.flatMap (·.body)

/-- all spans in the unit -/
def spans (u : CompilationUnit) : List Span :=
  u.imports.map (·.span) ++ u.types.toList.map (·.span) ++ u.methods.toList.flatMap (fun m => [m.nameSpan, m.span]) ++
    u.variableDecls.toList.map (·.span) ++ u.blocks.map (·.span) ++
      (listCalls u.code).flatMap fun call => [call.nameSpan, call.span]

variable {u : CompilationUnit} {e : Expr} {a : Span}

theorem mem_code : e ∈ u.code ↔ (∃ m ∈ u.methods, ∃ es, m.body = some es ∧ e ∈ es) ∨
    (∃ v ∈ u.variableDecls, v.initializer = some e) ∨ ∃ b ∈ u.blocks, e ∈ b.body := by
  have body (o : Option (List Expr)) : e ∈ o.getD [] ↔ ∃ es, o = some es ∧ e ∈ es := by
    cases o <;> simp
  simp [code, body]

theorem mem_spans : a ∈ u.spans ↔ (∃ i ∈ u.imports, i.span = a) ∨ (∃ t ∈ u.types, t.span = a) ∨
    (∃ m ∈ u.methods, a = m.nameSpan ∨ a = m.span) ∨ (∃ v ∈ u.variableDecls, v.span = a) ∨
    (∃ b ∈ u.blocks, b.span = a) ∨ ∃ call ∈ listCalls u.code, a = call.nameSpan ∨ a = call.span := by
  simp [spans]

end CompilationUnit

/-! ## Units that match themselves -/

namespace CompilationUnit.Matches

variable {R : Correspondence} {u u' : CompilationUnit}

theorem method_left (h : u.Matches R u') {m : MethodDecl} (hm : m ∈ u.methods) : ∃ m', m.Matches R m' := by
  obtain ⟨i, hi⟩ := Array.mem_iff_getElem?.1 hm
  exact h.methods.match_left (i := ⟨i⟩) hi

theorem type_left (h : u.Matches R u') {t : TypeDecl} (ht : t ∈ u.types) : ∃ t', t.Matches R t' := by
  obtain ⟨i, hi⟩ := Array.mem_iff_getElem?.1 ht
  exact h.types.match_left (i := ⟨i⟩) hi

theorem var_left (h : u.Matches R u') {v : VariableDecl} (hv : v ∈ u.variableDecls) : ∃ v', v.Matches R v' := by
  obtain ⟨i, hi⟩ := Array.mem_iff_getElem?.1 hv
  exact h.vars.match_left (i := ⟨i⟩) hi

theorem code_left (h : u.Matches R u') {e : Expr} (he : e ∈ u.code) : ∃ e', e.Matches R e' := by
  obtain ⟨m, hm, es, hbody, he⟩ | ⟨v, hv, hinit⟩ | ⟨b, hb, he⟩ := mem_code.1 he
  · obtain ⟨m', hmm⟩ := h.method_left hm
    obtain ⟨es', -, hes⟩ := optionRel_some hmm.body hbody
    obtain ⟨e', -, hee⟩ := forall₂_mem_left hes he
    exact ⟨e', hee⟩
  · obtain ⟨v', hvv⟩ := h.var_left hv
    obtain ⟨e', -, hee⟩ := optionRel_some hvv.initializer hinit
    exact ⟨e', hee⟩
  · obtain ⟨b', -, hbb⟩ := h.blocks.mem_left hb
    obtain ⟨e', -, hee⟩ := forall₂_mem_left hbb.body he
    exact ⟨e', hee⟩

theorem call_left (h : u.Matches R u') {call : Call Expr} (hcall : call ∈ listCalls u.code) :
    (∃ b, R.spans call.nameSpan b) ∧ ∃ b, R.spans call.span b := by
  obtain ⟨e, he, hcall⟩ := mem_listCalls.1 hcall
  obtain ⟨e', hee⟩ := h.code_left he
  obtain ⟨call', -, hcc⟩ := forall₂_mem_left (Expr.Matches.calls e hee) hcall
  cases hcc with
  | call _ _ _ _ _ _ hname hspan => exact ⟨⟨_, hname⟩, _, hspan⟩

/-- every span in a unit corresponds to one in a unit that matches it -/
theorem span_left (h : u.Matches R u') {a : Span} (ha : a ∈ u.spans) : ∃ b, R.spans a b := by
  obtain ⟨i, hi, rfl⟩ | ⟨t, ht, rfl⟩ | ⟨m, hm, ha⟩ | ⟨v, hv, rfl⟩ | ⟨b, hb, rfl⟩ | ⟨call, hcall, ha⟩ := mem_spans.1 ha
  · obtain ⟨i', -, hii⟩ := forall₂_mem_left h.imports hi
    exact ⟨_, hii.span⟩
  · obtain ⟨t', htt⟩ := h.type_left ht
    exact ⟨_, htt.span⟩
  · obtain ⟨m', hmm⟩ := h.method_left hm
    rcases ha with rfl | rfl
    · exact ⟨_, hmm.nameSpan⟩
    · exact ⟨_, hmm.span⟩
  · obtain ⟨v', hvv⟩ := h.var_left hv
    exact ⟨_, hvv.span⟩
  · obtain ⟨b', -, hbb⟩ := h.blocks.mem_left hb
    exact ⟨_, hbb.span⟩
  · obtain ⟨hname, hspan⟩ := h.call_left hcall
    rcases ha with rfl | rfl
    · exact hname
    · exact hspan

end CompilationUnit.Matches

section Nodes

variable {s : Source} {root : Node} {spans : Span → Span → Prop}

/-- a node means the same as itself, when spans of nodes correspond to themselves -/
theorem Node.alike_self {n : Node} (hn : n.Shaped) (hspans : ∀ m ∈ n.within, spans (s.spanOf m) (s.spanOf m)) :
    n.Alike spans s s n := by
  have reads : n.ReadsAlike s s n := ⟨fun _ => rfl, fun _ => rfl, fun _ => rfl, fun _ => rfl, fun _ => rfl, fun _ => rfl⟩
  refine .mk rfl rfl (hspans n n.mem_within_self) reads hn.plainComments hn.plainComments (List.forall₂_same.2 fun c hc => ?_)
  have child : c ∈ n.children := (mem_codeNodes.1 hc).1
  have smaller : sizeOf c < sizeOf n := sizeOf_child child
  exact alike_self (hn.child child) fun m hm => hspans m (mem_within_child child hm)
termination_by sizeOf n

namespace CompilationUnit

/-- **Every span of a unit is that of a node.** -/
theorem ofTree_spans (ht : s.tree? = some root) (path : String) :
    Safe True (fun u => ∀ a ∈ u.spans, ∃ n ∈ root.within, s.spanOf n = a) (ofTree path s root) := by
  let spans (a b : Span) : Prop := a = b ∧ ∃ n ∈ root.within, s.spanOf n = a
  have alike : root.Alike spans s s root := Node.alike_self (Source.tree_shaped ht) fun n hn => ⟨rfl, n, hn, rfl⟩
  have units := ofTree_matches path ht ht alike
  cases hu : ofTree path s root with
  | error fault => trivial
  | ok u =>
    rw [hu] at units
    obtain ⟨R, hspans, -, hm⟩ := units
    intro a ha
    obtain ⟨b, hab⟩ := hm.span_left ha
    rw [hspans] at hab
    exact hab.2

end CompilationUnit

/-! ## Names -/

namespace Declarations

/-- methods are named inside -/
def Named (d : Declarations) : Prop :=
  ∀ m ∈ d.methods, m.nameSpan.Within m.span

theorem Named.keptBySteps (h : root.InOrder) : KeptBySteps s (· ∈ root.within) Named where
  child := Node.within_child
  body hd _ _ := hd
  field hd _ _ _ _ _ := hd
  method hd hm _ m hmem := by
    rcases Array.mem_push.1 hmem with hmem | rfl
    · exact hd m hmem
    · cases hm with
      | mk hn owner isInterface name => exact s.child_within h hn .name
  type hd _ _ _ _ := hd

end Declarations

theorem Source.declarationsOf_named (h : root.InOrder) : (s.declarationsOf root).Named :=
  (Declarations.Named.keptBySteps h).collected (fun _ hn => Node.within_child root.mem_within_self hn) nofun

/-- calls are named inside -/
theorem callLaw_named (h : root.InOrder) (d : Declarations) :
    CallLaw s d root (fun _ => True) fun call => call.nameSpan.Within call.span where
  type _ _ _ _ _ _ := trivial
  parameter _ _ _ _ _ _ := trivial
  invocation c _ _ _ _ _ _ hn _ _ :=
    ⟨c.source.child_within h hn .name, fun _ _ _ _ _ => trivial⟩
  creation c _ _ _ _ hn _ := c.source.child_within h hn .type
  delegation c _ _ _ hn _ := c.source.child_within h hn .constructor

namespace CompilationUnit

variable {u : CompilationUnit}

theorem Lawful.code {d : Declarations} {T : String → Prop} {Q : Call Expr → Prop} {law : CallLaw s d root T Q}
    (h : u.Lawful law.lowering d) : ∀ call ∈ listCalls u.code, Q call := by
  intro call hcall
  obtain ⟨e, he, hcall⟩ := mem_listCalls.1 hcall
  obtain ⟨m, hm, es, hbody, he⟩ | ⟨v, hv, hinit⟩ | ⟨b, hb, he⟩ := mem_code.1 he
  · exact h.methodBodies m hm es hbody e he call hcall
  · exact (h.state v hv).initializer e hinit call hcall
  · exact (h.blocks b hb).2 e he call hcall

/-- **Calls and methods are named inside.** -/
theorem ofTree_names (h : root.InOrder) (path : String) :
    Safe True (fun u => (∀ m ∈ u.methods, m.nameSpan.Within m.span) ∧
      ∀ call ∈ listCalls u.code, call.nameSpan.Within call.span) (ofTree path s root) := by
  have calls := ofTree_each (callLaw_named (s := s) h _) (fun _ _ _ _ => trivial) path
  refine calls.mono id fun u lawful => ⟨fun m hm => ?_, lawful.code⟩
  obtain ⟨m', hm', heq⟩ := lawful.declared hm
  have name : m.nameSpan = m'.nameSpan := congrArg (·.nameSpan) heq
  have span : m.span = m'.span := congrArg (·.span) heq
  rw [name, span]
  exact Source.declarationsOf_named h m' hm'

end CompilationUnit

end Nodes

/-! ## Findings -/

namespace CompilationUnit

variable {u : CompilationUnit}

theorem mem_code_of_calls {call : Call Expr} (h : call ∈ u.calls) : call ∈ listCalls u.code := by
  obtain ⟨m, hm, es, hbody, hcall⟩ | ⟨v, hv, -, e, hinit, hcall⟩ | ⟨b, hb, hcall⟩ := mem_calls.1 h
  · obtain ⟨e, he, hcall⟩ := mem_listCalls.1 hcall
    exact mem_listCalls.2 ⟨e, mem_code.2 (.inl ⟨m, hm, es, hbody, he⟩), hcall⟩
  · obtain ⟨d, hd, hin⟩ := mem_listCalls.1 hcall
    exact mem_listCalls.2 ⟨e, mem_code.2 (.inr (.inl ⟨v, hv, hinit⟩)), List.mem_singleton.1 hd ▸ hin⟩
  · obtain ⟨e, he, hcall⟩ := mem_listCalls.1 hcall
    exact mem_listCalls.2 ⟨e, mem_code.2 (.inr (.inr ⟨b, hb, he⟩)), hcall⟩

/-- rules report spans of the unit -/
theorem violations_subset (u : CompilationUnit) (rule : Rule) : rule.violations u ⊆ u.spans := by
  intro a ha
  refine mem_spans.2 ?_
  cases rule with
  | dynamicCode =>
    obtain ⟨call, hcall, rfl⟩ := List.mem_map.1 ha
    have visited : call ∈ u.calls := by
      have matching := List.mem_of_mem_filter hcall
      rw [matching_eq] at matching
      rw [calls_eq]
      exact List.mem_of_mem_filter matching
    exact .inr (.inr (.inr (.inr (.inr ⟨call, mem_code_of_calls visited, .inl rfl⟩))))
  | missingAssertions catalog depth =>
    obtain ⟨id, -, hid⟩ := List.mem_filterMap.1 ha
    obtain ⟨m, hm, rfl⟩ := Option.map_eq_some_iff.1 hid
    exact .inr (.inr (.inl ⟨m, Array.mem_of_getElem? hm, .inl rfl⟩))

end CompilationUnit

end CallLint
