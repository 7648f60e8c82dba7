/-
Lowering keeps what is kept. At each level of a body, the calls in what a node leaves are written at the kept sites in
that node, in the same order (`Inner.Lowers`). One step lemma goes from one level to the level around it, with one lemma
for each construct; the last level keeps nothing, as nothing so deep is kept.

When lowering stops with a fault, the node holds a string whose text has none (`Node.Faulty`).
-/
import CallLint.Proofs.CallSites.Kept
import CallLint.Proofs.CallSites.Yields
import CallLint.Proofs.Traversal

namespace CallLint

open Lower

/-- a string in the node has no text: its lines cannot lose their shared indentation -/
inductive Node.Faulty (s : Source) : Node → Prop where
  | here {n : Node} {fault : Fault} :
    n.kind = .stringLiteral → Literal.ofStringText? (s.textOf n) = .error fault → Faulty s n
  | inside {n c : Node} : c ∈ n.children → Faulty s c → Faulty s n

/-- what is written at the calls in an expression -/
def Expr.written (e : Expr) : List Written :=
  e.calls.map Call.written

/-- what is written at the calls in some expressions -/
def writtenIn (es : List Expr) : List Written :=
  (listCalls es).map Call.written

@[simp] theorem writtenIn_nil : writtenIn [] = [] := rfl

theorem writtenIn_append (es fs : List Expr) : writtenIn (es ++ fs) = writtenIn es ++ writtenIn fs := by
  rw [writtenIn, listCalls_append, List.map_append, writtenIn, writtenIn]

@[simp] theorem writtenIn_singleton (e : Expr) : writtenIn [e] = e.written := by
  rw [writtenIn, listCalls, listCalls, List.append_nil, Expr.written]

theorem writtenIn_eq (es : List Expr) : writtenIn es = es.flatMap Expr.written := by
  induction es with
  | nil => rfl
  | cons e es ih =>
    rw [List.flatMap_cons, ← ih, ← writtenIn_singleton, ← writtenIn_append]
    rfl

theorem writtenIn_flatten (ess : List (List Expr)) : writtenIn ess.flatten = ess.flatMap writtenIn := by
  induction ess with
  | nil => rfl
  | cons es ess ih => rw [List.flatten_cons, writtenIn_append, ih, List.flatMap_cons]

@[simp] theorem Expr.written_other (kind : String) (es : List Expr) : (Expr.other kind es).written = writtenIn es := by
  rw [written, calls, writtenIn]

/-- what is written at a call comes before what is written in its parts -/
theorem Expr.written_call (name : String) (owner : Option String) (receiver : Option Expr) (arguments body : List Expr)
    (target : Option MethodId) (nameSpan span : Span) :
    (Expr.call ⟨name, owner, receiver, arguments, body, target, nameSpan, span⟩).written =
      ⟨name, nameSpan, span⟩ :: (receiver.toList.flatMap Expr.written ++ writtenIn arguments ++ writtenIn body) := by
  rw [written, calls, callCalls, List.map_cons, List.map_append, List.map_append]
  congr 3
  cases receiver with
  | none => rfl
  | some e => simp [optionCalls, written]

/-- the nodes inside a node at one depth are lowered to what is kept of them -/
structure Inner.Lowers (inner : Inner) (s : Source) (d : Nat) : Prop where
  splice : ∀ (c : LowerContext) (n : Node), c.source = s → n.Shaped →
    Yields (n.Faulty s) (inner.splice c n) fun es => writtenIn es = n.kept s (.statement d)
  expression : ∀ (c : LowerContext) (n : Node), c.source = s → n.Shaped →
    Yields (n.Faulty s) (inner.expression c n) fun e => e.written = n.kept s (.expression d)

namespace Inner

variable {inner : Inner} {s : Source} {d : Nat} {c : LowerContext} {n : Node}

theorem Lowers.splice_child (h : inner.Lowers s d) (hc : c.source = s) (hn : n.Shaped) {m : Node}
    (hm : m ∈ n.children) :
    Yields (n.Faulty s) (inner.splice c m) fun es => writtenIn es = m.kept s (.statement d) :=
  (h.splice c m hc (hn.child hm)).mono (.inside hm) fun _ => id

theorem Lowers.expression_child (h : inner.Lowers s d) (hc : c.source = s) (hn : n.Shaped) {m : Node}
    (hm : m ∈ n.children) :
    Yields (n.Faulty s) (inner.expression c m) fun e => e.written = m.kept s (.expression d) :=
  (h.expression c m hc (hn.child hm)).mono (.inside hm) fun _ => id

theorem mem_children {m : Node} (h : m ∈ n.namedChildren) : m ∈ n.children :=
  List.mem_of_mem_filter h

/-- nothing hangs on children that are left out, since they are calm and no notes -/
theorem flatMap_namedChildren {β : Type} {f : Node → List β}
    (h : ∀ m ∈ n.children, m.isCalm = true → m.kind.isNote = false → f m = []) :
    n.namedChildren.flatMap f = n.children.flatMap f := by
  refine flatMap_filter_of_nil fun m hm hno => ?_
  have calm : m.isCalm = true ∧ m.kind.isNote = false := by
    rw [Node.isComment] at hno
    rw [Node.isCalm]
    revert hno
    cases m.kind <;> decide
  exact h m hm calm.1 calm.2

theorem Lowers.children (h : inner.Lowers s d) (hc : c.source = s) (hn : n.Shaped) :
    Yields (n.Faulty s) (inner.children c n) fun es =>
      writtenIn es = n.children.flatMap (·.kept s (.statement d)) := by
  refine (Yields.mapM (g := writtenIn) (h := (·.kept s (.statement d))) fun m hm =>
    h.splice_child hc hn (mem_children hm)).bind fun ess hess => .pure ?_
  rw [writtenIn_flatten, hess, flatMap_namedChildren fun m hm hcalm _ => hn.kept_calm_child hm hcalm d]

theorem Lowers.group (h : inner.Lowers s d) (hc : c.source = s) (hn : n.Shaped) :
    Yields (n.Faulty s) (inner.children c n) fun es => writtenIn es = n.kept s (.group d) := by
  rw [Node.kept_group]
  exact h.children hc hn

theorem Lowers.child (h : inner.Lowers s d) (hc : c.source = s) (hn : n.Shaped) (r : Role) :
    Yields (n.Faulty s) (inner.child c n r) fun es => writtenIn es = n.keptIn s r (.statement d) := by
  rw [Inner.child, Node.keptIn]
  cases hm : n.child? r with
  | none => exact .pure rfl
  | some m => simpa using h.splice_child hc hn (Node.child?_mem hm)

theorem Lowers.opaqueNode (h : inner.Lowers s d) (hc : c.source = s) (hn : n.Shaped) :
    Yields (n.Faulty s) (inner.opaqueNode c n) fun e =>
      e.written = n.children.flatMap (·.kept s (.statement d)) :=
  (h.children hc hn).bind fun es hes => .pure (by rw [Expr.written_other, hes])

/-! ## Calls -/

theorem Lowers.arguments (h : inner.Lowers s d) (hc : c.source = s) (hn : n.Shaped) :
    Yields (n.Faulty s) (inner.arguments c n) fun es => writtenIn es = n.keptIn s .arguments (.arguments d) := by
  rw [Inner.arguments, Node.keptIn]
  cases hm : n.child? .arguments with
  | none => exact .pure rfl
  | some list =>
    have hlist := hn.child (Node.child?_mem hm)
    refine (Yields.mapM (g := Expr.written) (h := (·.kept s (.expression d))) fun m hmem => ?_).imp fun es hes => ?_
    · exact (h.expression_child hc hlist (mem_children hmem)).mono (.inside (Node.child?_mem hm)) fun _ => id
    · rw [writtenIn_eq, hes, flatMap_namedChildren fun m hm hcalm hnote => ((hlist.child hm).kept_calm hcalm d).2 hnote]
      simp [Node.kept_arguments]

theorem Lowers.methodInvocation (h : inner.Lowers s (d + 1)) (hd : d < nestingLimit) (hc : c.source = s)
    (hn : n.Shaped) (hk : n.kind = .methodInvocation) :
    Yields (n.Faulty s) (inner.methodInvocation c n) fun call =>
      (Expr.call call).written = n.kept s (.expression d) := by
  rw [hn.kept_methodInvocation hk hd]
  refine (h.arguments hc hn).bind fun arguments harguments => .get fun st => ?_
  have call (owner : Option String) (target : Option MethodId) {r : Option Expr}
      (hr : r.toList.flatMap Expr.written = n.keptIn s .object (.expression (d + 1))) :
      (Expr.call ⟨((n.child? .name).map c.textOf).getD "", owner, r, arguments, [], target,
        c.spanOf ((n.child? .name).getD n), c.spanOf n⟩).written = n.written s ::
          (n.keptIn s .object (.expression (d + 1)) ++ n.keptIn s .arguments (.arguments (d + 1))) := by
    rw [Expr.written_call, hr, harguments, writtenIn_nil, List.append_nil, Node.written, Node.callee, if_pos hk, hk, ← hc]
    rfl
  split
  split
  · rename_i hm
    exact .bind (.pure rfl) fun r hr => .pure (call _ _ (by rw [← hr, Node.keptIn, hm]; rfl))
  · rename_i object hm
    refine ((h.expression_child hc hn (Node.child?_mem hm)).map (R := fun r => _ = _) fun e he => ?_).bind fun r hr =>
      .pure (call _ _ hr)
    rw [Node.keptIn, hm]
    simpa using he

theorem Lowers.objectCreation (h : inner.Lowers s (d + 1)) (hd : d < nestingLimit) (hc : c.source = s) (hn : n.Shaped)
    (hk : n.kind = .objectCreationExpression) :
    Yields (n.Faulty s) (inner.objectCreation c n) fun call =>
      (Expr.call call).written = n.kept s (.expression d) := by
  rw [hn.kept_objectCreation hk hd]
  refine (h.arguments hc hn).bind fun arguments harguments => ?_
  have call (owner : Option String) (target : Option MethodId) {body : List Expr}
      (hbody : writtenIn body = (n.childOfKind? .classBody).toList.flatMap (·.kept s (.group (d + 1)))) :
      (Expr.call ⟨constructorName, owner, none, arguments, body, target, c.spanOf ((n.child? .type).getD n),
        c.spanOf n⟩).written = n.written s :: (n.keptIn s .arguments (.arguments (d + 1)) ++
          (n.childOfKind? .classBody).toList.flatMap (·.kept s (.group (d + 1)))) := by
    rw [Expr.written_call, harguments, hbody, Node.written, Node.callee, if_neg (by rw [hk]; decide), hk, ← hc]
    rfl
  split
  · rename_i body hm
    have hmem : body ∈ n.children := List.mem_of_find?_eq_some hm
    refine Yields.bind ((h.children hc (hn.child hmem)).mono (.inside hmem) fun _ => id).inScope fun es hes =>
      .pure (call _ _ ?_)
    rw [hes, hm]
    simp [Node.kept_group]
  · rename_i hm
    exact .bind (.pure rfl) fun body hbody => .pure (call _ _ (by rw [← hbody, hm]; rfl))

theorem Lowers.constructorInvocation (h : inner.Lowers s (d + 1)) (hd : d < nestingLimit) (hc : c.source = s)
    (hn : n.Shaped) (hk : n.kind = .explicitConstructorInvocation) :
    Yields (n.Faulty s) (inner.constructorInvocation c n) fun call =>
      (Expr.call call).written = n.kept s (.statement d) := by
  rw [hn.kept_explicitInvocation hk hd]
  refine (h.arguments hc hn).bind fun arguments harguments => .pure ?_
  rw [Expr.written_call, harguments, writtenIn_nil, List.append_nil, Node.written, Node.callee,
    if_neg (by rw [hk]; decide), hk, ← hc]
  rfl

/-! ## Other expressions -/

theorem Lowers.literal (h : inner.Lowers s (d + 1)) (hc : c.source = s) (hn : n.Shaped) (hcalm : n.isCalm = true)
    (hnote : n.kind.isNote = false) (value : Option Literal) :
    Yields (n.Faulty s) (inner.literal c n value) fun e => e.written = n.kept s (.expression d) := by
  rw [(hn.kept_calm hcalm d).2 hnote]
  cases value with
  | some v => exact .pure rfl
  | none =>
    refine (h.opaqueNode hc hn).imp fun e he => he.trans ?_
    rw [List.flatMap_eq_nil_iff]
    exact fun m hm => hn.kept_calm_child hm (hn.calm_child hcalm hnote hm) _

theorem Lowers.fieldAccess (h : inner.Lowers s (d + 1)) (hc : c.source = s) (hn : n.Shaped)
    (hk : n.kind = .fieldAccess) :
    Yields (n.Faulty s) (inner.fieldAccess c n) fun e => e.written = n.kept s (.expression d) := by
  rw [hn.kept_fieldAccess hk, Node.keptIn]
  have hform := hn.form (f := ⟨[.role .object], [.role .object, .role .field], []⟩) (by rw [hk]; rfl)
  obtain ⟨object, hobject⟩ := hn.child?_of_needed (hform.needed (.role .object) (by simp))
  obtain ⟨field, hfield⟩ := hn.child?_of_needed (hform.needed (.role .field) (by simp))
  rw [Inner.fieldAccess, hobject, hfield]
  refine .get fun st => (h.expression_child hc hn (Node.child?_mem hobject)).bind fun e he => .pure ?_
  simpa [Expr.written, Expr.calls] using he

theorem Lowers.binary (h : inner.Lowers s (d + 1)) (hc : c.source = s) (hn : n.Shaped)
    (hk : n.kind = .binaryExpression) :
    Yields (n.Faulty s) (inner.binary c n) fun e => e.written = n.kept s (.expression d) := by
  rw [hn.kept_binary hk, Node.keptIn, Node.keptIn]
  have hform := hn.form (f := ⟨[.role .left, .role .right], [.role .left, .role .operator, .role .right], []⟩)
    (by rw [hk]; rfl)
  obtain ⟨left, hleft⟩ := hn.child?_of_needed (hform.needed (.role .left) (by simp))
  obtain ⟨operator, hoperator⟩ := hn.child?_of_needed (hform.needed (.role .operator) (by simp))
  obtain ⟨right, hright⟩ := hn.child?_of_needed (hform.needed (.role .right) (by simp))
  rw [Inner.binary, hleft, hoperator, hright]
  refine (h.expression_child hc hn (Node.child?_mem hleft)).bind fun e he => ?_
  refine (h.expression_child hc hn (Node.child?_mem hright)).bind fun e' he' => .pure ?_
  rw [Expr.written] at he he'
  simp [Expr.written, Expr.calls, he, he']

theorem Lowers.lambda (h : inner.Lowers s (d + 1)) (hc : c.source = s) (hn : n.Shaped)
    (hk : n.kind = .lambdaExpression) :
    Yields (n.Faulty s) (inner.lambda c n) fun e => e.written = n.kept s (.expression d) := by
  rw [hn.kept_lambda hk]
  have body : Yields (n.Faulty s) (do return .other n.kind.render (← inner.child c n .body)) fun e : Expr =>
      e.written = n.keptIn s .body (.statement (d + 1)) :=
    (h.child hc hn .body).bind fun es hes => .pure (by rw [Expr.written_other, hes])
  refine Yields.inScope ?_
  split
  · exact body
  · split
    · exact (Yields.declareUntyped c _ _).bind fun _ _ => body
    · exact (Yields.forM fun _ _ => .declareUntyped c _ _).bind fun _ _ => body
    · exact (Yields.declareParameters c _).bind fun _ _ => body

theorem Lowers.parenthesized (h : inner.Lowers s (d + 1)) (hc : c.source = s) (hn : n.Shaped)
    (hk : n.kind = .parenthesizedExpression) :
    Yields (n.Faulty s)
      (match n.namedChildren with
        | first :: _ => inner.expression c first
        | [] => return .other n.kind.render [])
      fun e => e.written = n.kept s (.expression d) := by
  have kept : n.kept s (.expression d) = n.namedChildren.flatMap (·.kept s (.expression (d + 1))) := by
    rw [Node.kept_expression, Node.keptSelf_not_site (by rw [hk]; rfl), List.nil_append,
      flatMap_namedChildren fun m hm hcalm hnote => ((hn.child hm).kept_calm hcalm _).2 hnote]
    simp only [Position.inExpression, hk]
  have one : n.namedChildren.length ≤ 1 := by
    refine (List.Sublist.length_le ?_).trans (hn.parenthesized hk)
    refine List.monotone_filter_right _ fun m hm => ?_
    exact (Bool.and_eq_true_iff.1 hm).2
  rw [kept]
  cases hm : n.namedChildren with
  | nil => exact .pure rfl
  | cons m rest =>
    rw [hm, List.length_cons] at one
    obtain rfl : rest = [] := List.eq_nil_of_length_eq_zero (by omega)
    have hmem : m ∈ n.children := mem_children (by rw [hm]; exact List.mem_cons_self)
    simpa using h.expression_child hc hn hmem

theorem Lowers.string (h : inner.Lowers s (d + 1)) (hc : c.source = s) (hn : n.Shaped) (hk : n.kind = .stringLiteral) :
    Yields (n.Faulty s)
      (do inner.literal c n (← (Literal.ofStringText? (c.textOf n) : Except Fault (Option Literal))))
      fun e => e.written = n.kept s (.expression d) := by
  have htext : c.textOf n = s.textOf n := by rw [← hc]; rfl
  rw [Node.kept_expression, Node.keptSelf_not_site (by rw [hk]; rfl), List.nil_append, htext]
  refine Yields.lift (fun fault hf => .here hk hf) fun value hv => ?_
  cases value with
  | some v =>
    have valued : Position.isValued s n = true := by simp [Position.isValued, hv]
    refine .pure ?_
    simp only [Position.inExpression, hk, valued, if_true]
    exact (kept_dead_in n.children (f := fun _ => .lost) fun _ => trivial).symm
  | none =>
    have plain : Position.isValued s n = false := by simp [Position.isValued, hv]
    simp only [Position.inExpression, hk, plain, Bool.false_eq_true, if_false]
    exact h.opaqueNode hc hn

/-- what is kept of an expression that is lowered as an opaque node -/
theorem kept_opaqueNode (hself : n.keptSelf s (.expression d) = [])
    (hpos : ∀ m, Position.inExpression s d n m = .statement (d + 1)) :
    n.kept s (.expression d) = n.children.flatMap (·.kept s (.statement (d + 1))) := by
  rw [Node.kept_expression, hself, List.nil_append]
  simp only [hpos]

theorem Lowers.ofExpression (h : inner.Lowers s (d + 1)) (hd : d < nestingLimit) (hc : c.source = s) (hn : n.Shaped) :
    Yields (n.Faulty s) (inner.ofExpression c n) fun e => e.written = n.kept s (.expression d) := by
  have literal {k : NodeKind} (hk : n.kind = k) (hcalm : k.load = .calm) (hnote : k.isNote = false)
      (value : Option Literal) :=
    h.literal hc hn (d := d) (by rw [Node.isCalm, hk, hcalm]; rfl) (by rw [hk, hnote]) value
  have leaf {k : NodeKind} (hk : n.kind = k) (hcalm : k.load = .calm) (hnote : k.isNote = false) {e : Expr}
      (he : e.written = []) : Yields (n.Faulty s) (pure e) fun e => e.written = n.kept s (.expression d) := by
    refine .pure ?_
    rw [(hn.kept_calm (by rw [Node.isCalm, hk, hcalm]; rfl) d).2 (by rw [hk, hnote]), he]
  unfold Inner.ofExpression
  split
  case h_1 hk => exact h.parenthesized hc hn hk
  case h_2 hk => exact h.string hc hn hk
  case h_3 hk => exact literal hk rfl rfl _
  case h_4 hk => exact literal hk rfl rfl _
  case h_5 hk => exact literal hk rfl rfl _
  case h_6 hk => exact literal hk rfl rfl _
  case h_7 hk => exact literal hk rfl rfl _
  case h_8 hk => exact leaf hk rfl rfl rfl
  case h_9 hk => exact leaf hk rfl rfl rfl
  case h_10 hk => exact leaf hk rfl rfl rfl
  case h_11 hk => exact leaf hk rfl rfl rfl
  case h_12 hk => exact .get fun st => leaf hk rfl rfl rfl
  case h_13 hk => exact h.fieldAccess hc hn hk
  case h_14 hk => exact h.binary hc hn hk
  case h_15 hk => exact (h.methodInvocation hd hc hn hk).bind fun call hcall => .pure hcall
  case h_16 hk => exact (h.objectCreation hd hc hn hk).bind fun call hcall => .pure hcall
  case h_17 hk => exact h.lambda hc hn hk
  case h_18 =>
    rw [kept_opaqueNode (Node.keptSelf_expression ‹_› ‹_›)
      fun m => Position.inExpression_other ‹_› ‹_› ‹_› ‹_› ‹_› ‹_› ‹_›]
    exact h.opaqueNode hc hn

/-! ## Statements -/

theorem Lowers.declarator (h : inner.Lowers s d) (hc : c.source = s) (hn : n.Shaped)
    (hk : n.kind = .variableDeclarator) (isFinal : Bool) (type : Option String) :
    Yields (n.Faulty s) (inner.declarator c isFinal type n) fun es => writtenIn es = n.kept s (.declarator d) := by
  rw [hn.kept_declarator hk, Node.keptIn]
  have hform := hn.form (f := ⟨[.role .value], [.role .name], []⟩) (by rw [hk]; rfl)
  obtain ⟨name, hname⟩ := hn.child?_of_needed (hform.needed (.role .name) (by simp))
  rw [Inner.declarator, hname]
  have rest (initializer : Option Expr) (hi : writtenIn initializer.toList = n.keptIn s .value (.expression d))
      (v : VariableDecl) (hv : v.kind ≠ .field) :
      Yields (n.Faulty s) (do declare v; return initializer.toList) fun es =>
        writtenIn es = n.keptIn s .value (.expression d) :=
    (Yields.declare hv).bind fun _ _ => .pure hi
  dsimp only
  split
  · rename_i hv
    refine .bind (.pure (P := fun i => i = none) rfl) fun i hi => rest i ?_ _ (by simp)
    rw [hi, Node.keptIn, hv]
    rfl
  · rename_i value hv
    refine ((h.expression_child hc hn (Node.child?_mem hv)).map (R := fun i => writtenIn i.toList = _) fun e he => ?_).bind
      fun i hi => rest i hi _ (by simp)
    rw [Node.keptIn, hv]
    simpa using he

theorem Lowers.localDeclaration (h : inner.Lowers s (d + 1)) (hc : c.source = s) (hn : n.Shaped)
    (hk : n.kind = .localVariableDeclaration ∨ n.kind = .fieldDeclaration) :
    Yields (n.Faulty s) (inner.localDeclaration c n) fun es => writtenIn es = n.kept s (.statement d) := by
  rw [hn.kept_localDeclaration hk]
  refine (Yields.mapM (g := writtenIn) (h := (·.kept s (.declarator (d + 1)))) fun m hm => ?_).bind fun ess hess =>
    .pure (by rw [writtenIn_flatten, hess])
  obtain ⟨hmem, hr⟩ := List.mem_filter.1 hm
  have hr : m.role = some .declarator := by simpa using hr
  rcases hn.declared (hk.imp_right Or.inl) hmem with hd | hd
  · exact (h.declarator hc (hn.child hmem) hd.2 _ _).mono (.inside hmem) fun _ => id
  · exact absurd hr hd.1

theorem Lowers.enhancedFor (h : inner.Lowers s (d + 1)) (hc : c.source = s) (hn : n.Shaped)
    (hk : n.kind = .enhancedForStatement) :
    Yields (n.Faulty s) (inner.enhancedFor c n) fun es => writtenIn es = n.kept s (.statement d) := by
  rw [hn.kept_enhancedFor hk]
  refine Yields.inScope ((h.child hc hn .value).bind fun value hvalue => ?_)
  have body : Yields (n.Faulty s) (do return value ++ (← inner.child c n .body)) fun es =>
      writtenIn es = n.keptIn s .value (.statement (d + 1)) ++ n.keptIn s .body (.statement (d + 1)) :=
    (h.child hc hn .body).bind fun es hes => .pure (by rw [writtenIn_append, hvalue, hes])
  split
  · exact (Yields.declare (by simp)).bind fun _ _ => body
  · exact body

theorem Lowers.resource (h : inner.Lowers s (d + 1)) (hc : c.source = s) (hn : n.Shaped) (hk : n.kind = .resource) :
    Yields (n.Faulty s) (inner.resource c n) fun es => writtenIn es = n.kept s (.statement d) := by
  rcases hn.resource hk with hf | hroles
  · rw [hn.kept_declaredResource hk hf, Node.keptIn]
    obtain ⟨name, hname⟩ := hn.child?_of_needed (hf.needed (.role .name) (by simp [NodeKind.declaredResource]))
    obtain ⟨value, hvalue⟩ := hn.child?_of_needed (hf.needed (.role .value) (by simp [NodeKind.declaredResource]))
    rw [Inner.resource, hname, hvalue]
    refine (h.expression_child hc hn (Node.child?_mem hvalue)).bind fun e he => ?_
    refine (Yields.declare (by simp)).bind fun _ _ => .pure ?_
    simpa using he
  · have none (r : Role) : n.child? r = none := by
      rw [Node.child?, List.find?_eq_none]
      exact fun m hm => by simp [hroles m hm]
    rw [Inner.resource, none, none, Node.kept_statement (by rw [hk]; rfl) (by rw [hk]; rfl),
      Node.keptSelf_not_site (by rw [hk]; rfl), List.nil_append, List.flatMap_congr fun m hm => by
        rw [show Position.inStatement d n m = .statement (d + 1) by
          simp [Position.inStatement, hk, NodeKind.isTypeDeclaration, hroles m hm]]]
    exact h.children hc hn

theorem Lowers.localMethod (h : inner.Lowers s (d + 1)) (hc : c.source = s) (hn : n.Shaped)
    (hk : n.kind = .methodDeclaration ∨ n.kind = .constructorDeclaration) :
    Yields (n.Faulty s) (inner.localMethod c n) fun es => writtenIn es = n.kept s (.statement d) := by
  rw [hn.kept_localMethod hk]
  refine Yields.inScope ?_
  split
  · exact (Yields.declareParameters c _).bind fun _ _ => h.child hc hn .body
  · exact h.child hc hn .body

theorem Lowers.localType (h : inner.Lowers s (d + 1)) (hc : c.source = s) (hn : n.Shaped)
    (hk : n.kind.isTypeDeclaration = true) :
    Yields (n.Faulty s) (inner.localType c n) fun es => writtenIn es = n.kept s (.statement d) := by
  rw [hn.kept_localType hk, Node.keptIn, Inner.localType]
  cases hb : n.child? .body with
  | none => exact .pure rfl
  | some body =>
    have hmem := Node.child?_mem hb
    refine .inScope ((h.group (c := { c with inLocalType := true }) hc (hn.child hmem)).mono (.inside hmem)
      fun es hes => ?_)
    rw [hes, Option.toList_some, List.flatMap_singleton]

/-- a statement of which nothing is known but that all its children are spliced -/
theorem Lowers.spliced (h : inner.Lowers s (d + 1)) (hc : c.source = s) (hn : n.Shaped)
    (hnote : n.kind.isNote = false) (hexp : n.kind.isExpression = false) (hsite : n.kind.isCallSite = false)
    (hpos : ∀ m, Position.inStatement d n m = .statement (d + 1)) :
    Yields (n.Faulty s) (inner.children c n) fun es => writtenIn es = n.kept s (.statement d) := by
  rw [Node.kept_statement hnote hexp, Node.keptSelf_not_site hsite, List.nil_append]
  simp only [hpos]
  exact h.children hc hn

theorem Lowers.ofStatement (h : inner.Lowers s (d + 1)) (hd : d < nestingLimit) (hc : c.source = s) (hn : n.Shaped) :
    Yields (n.Faulty s) (inner.ofStatement c n) fun es => writtenIn es = n.kept s (.statement d) := by
  have nothing {k : NodeKind} (hk : n.kind = k) (hcalm : k.load = .calm) :
      Yields (n.Faulty s) (pure []) fun es => writtenIn es = n.kept s (.statement d) :=
    .pure (hn.kept_calm (by rw [Node.isCalm, hk, hcalm]; rfl) d).1.symm
  have block {k : NodeKind} (hk : n.kind = k) (hnote : k.isNote = false) (hexp : k.isExpression = false)
      (hsite : k.isCallSite = false) (hpos : ∀ m, Position.inStatement d n m = .statement (d + 1)) :=
    h.spliced (c := c) hc hn (by rw [hk, hnote]) (by rw [hk, hexp]) (by rw [hk, hsite]) hpos
  unfold Inner.ofStatement
  split
  case h_1 hk => exact nothing hk rfl
  case h_2 hk => exact nothing hk rfl
  case h_3 hk => exact nothing hk rfl
  case h_4 hk => exact nothing hk rfl
  case h_5 hk => exact nothing hk rfl
  case h_6 hk => exact (block hk rfl rfl rfl (Position.inStatement_kind hk rfl)).inScope
  case h_7 hk => exact (block hk rfl rfl rfl (Position.inStatement_kind hk rfl)).inScope
  case h_8 hk => exact (block hk rfl rfl rfl (Position.inStatement_kind hk rfl)).inScope
  case h_9 hk => exact (block hk rfl rfl rfl (Position.inStatement_kind hk rfl)).inScope
  case h_10 hk => exact (block hk rfl rfl rfl (Position.inStatement_kind hk rfl)).inScope
  case h_11 hk => exact (block hk rfl rfl rfl (Position.inStatement_kind hk rfl)).inScope
  case h_12 hk => exact (block hk rfl rfl rfl (Position.inStatement_kind hk rfl)).inScope
  case h_13 hk => exact h.localDeclaration hc hn (Or.inl hk)
  case h_14 hk => exact h.localDeclaration hc hn (Or.inr hk)
  case h_15 hk => exact h.enhancedFor hc hn hk
  case h_16 hk =>
    split
    · exact (Yields.declareUntyped c _ _).bind fun _ _ => nothing hk rfl
    · exact nothing hk rfl
  case h_17 hk => exact h.resource hc hn hk
  case h_18 hk => exact h.localMethod hc hn (Or.inl hk)
  case h_19 hk => exact h.localMethod hc hn (Or.inr hk)
  case h_20 hk => exact (h.constructorInvocation hd hc hn hk).bind fun call hcall => .pure (by simpa using hcall)
  case h_21 =>
    split_ifs with htype hexp
    · exact h.localType hc hn htype
    · refine (h.expression c n hc hn).bind fun e he => .pure ?_
      rw [writtenIn_singleton, he, Node.kept_statement_expression hexp]
    · have hnote : n.kind.isNote = false := by
        unfold NodeKind.isNote
        split <;> first | contradiction | rfl
      have hsite : n.kind.isCallSite = false := by
        unfold NodeKind.isCallSite
        split <;> first | rfl | (exact absurd (by rw [‹n.kind = _›]; rfl) hexp) | contradiction
      have hsorts : Position.sorts n.kind = false := by
        unfold Position.sorts
        split <;> first | contradiction | simpa using htype
      exact h.spliced hc hn hnote (by simpa using hexp) hsite (Position.inStatement_kind rfl hsorts)

/-! ## All levels -/

/-- one level more -/
theorem Lowers.step (h : inner.Lowers s (d + 1)) (hd : d < nestingLimit) :
    Inner.Lowers ⟨inner.ofStatement, inner.ofExpression⟩ s d :=
  ⟨fun _ _ hc hn => h.ofStatement hd hc hn, fun _ _ hc hn => h.ofExpression hd hc hn⟩

/-- **Lowering keeps what is kept**, at each depth of a body. -/
theorem lowers (s : Source) {levels d : Nat} (h : levels + d = nestingLimit) : (ofLevels levels).Lowers s d := by
  induction levels generalizing d with
  | zero =>
    have hd : nestingLimit ≤ d := by omega
    exact ⟨fun _ n _ _ => .pure (Node.kept_dead n (p := .statement d) hd).symm,
      fun _ n _ _ => .pure (Node.kept_dead n (p := .expression d) hd).symm⟩
  | succ levels ih => exact (ih (d := d + 1) (by omega)).step (by omega)

/-- all levels of a body -/
theorem lowers_body (s : Source) : (ofLevels nestingLimit).Lowers s 0 :=
  lowers s rfl

end Inner

end CallLint
