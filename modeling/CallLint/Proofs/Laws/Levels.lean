/-
Laws of lowering. A law says what holds of the states that are passed while a body is lowered and of the expressions that
are left at each level, and that each way to make a state or an expression keeps to it (`LoweringLaw`). What the levels of
a body have in common is shown here once, with one lemma for each construct: where the nodes inside a node are lowered by
a law, so is the node (`Inner.Lawful.step`), and all levels are (`Inner.ofLevels_lawful`).
-/
import CallLint.Proofs.Laws.Actions

namespace CallLint

/-! ## The calls that are made -/

namespace LowerContext

variable (c : LowerContext)

/-- the call of a method invocation whose parts are lowered to these -/
def invoked (st : LowerState) (n : Node) (arguments : List Expr) (receiver : Option Expr) : Call Expr :=
  let name := ((n.child? .name).map c.textOf).getD ""
  let bound :=
    match n.child? .object with
    | none => c.unqualified name arguments.length
    | some object => c.qualified st object name arguments.length
  ⟨name, bound.1, receiver, arguments, [], bound.2, c.spanOf ((n.child? .name).getD n), c.spanOf n⟩

/-- the call of an object creation -/
def created (n : Node) (arguments body : List Expr) : Call Expr :=
  ⟨constructorName, c.declaredType? n, none, arguments, body,
    c.constructor? ((c.declaredType? n).bind c.declarations.typeNamed?) arguments.length,
    c.spanOf ((n.child? .type).getD n), c.spanOf n⟩

/-- the call of an explicit constructor call -/
def delegated (n : Node) (arguments : List Expr) : Call Expr :=
  let keyword := n.child? .constructor
  let constructed := c.constructed (keyword.map (·.kind))
  ⟨constructorName, constructed.1, none, arguments, [], c.constructor? constructed.2 arguments.length,
    c.spanOf (keyword.getD n), c.spanOf n⟩

end LowerContext

theorem Expr.eq_of_call? {e : Expr} {call : Call Expr} (h : e.call? = some call) : e = .call call := by
  cases e with
  | call c => exact congrArg Expr.call (Option.some.inj h)
  | _ => cases h

/-! ## Laws -/

/-- What holds while bodies are lowered: of states, of the nodes that are lowered, of the types that variables have, and,
so many levels from the deepest and with these variables declared, of what is left of a node where statements stand
(`Leaves`) and where an expression must stand (`Gives`). `Stops` must hold where lowering stops with a fault. -/
structure LoweringLaw where
  State : LowerState → Prop
  Place : LowerContext → Node → Prop
  Typed : String → Prop
  Leaves : Nat → Array VariableDecl → Expr → Prop
  Gives : Nat → Array VariableDecl → Expr → Prop
  /-- so many levels are lowered at most -/
  limit : Nat
  Stops : Prop
  -- nodes and types
  inside : ∀ {c n m}, Place c n → m ∈ n.children → Place c m
  localType : ∀ {c n}, Place c n → Place { c with inLocalType := true } n
  type : ∀ {c n}, Place c n → ∀ o, c.declaredType? n = some o → Typed o
  parameter : ∀ {c n}, Place c n → ∀ p ∈ c.source.parametersOf n, ∀ o, c.declarations.names.resolve? p.type = some o →
    Typed o
  faulty : ∀ {c n fault}, Place c n → n.kind = .stringLiteral → Literal.ofStringText? (c.textOf n) = .error fault → Stops
  creates : ∀ {k vs call}, Gives k vs (.call call) → call.isConstructor = true → ∀ o, call.owner = some o → Typed o
  -- states
  opened : ∀ st, State st → State { st with scopes := [] :: st.scopes }
  closed : ∀ st i, State st → State { st with scopes := st.scopes.drop i }
  declared : ∀ {st v}, State st → (∀ o, v.declaredType = some o → Typed o) →
    (∀ e, v.initializer = some e → Leaves limit st.variableDecls e) → State (st.declare v)
  initialized : ∀ {st init} i, State st → (∀ e, init = some e → Leaves limit st.variableDecls e) →
    State { st with variableDecls := st.variableDecls.modify i fun v => { v with initializer := init } }
  -- expressions, with more levels and more variables
  leaves_mono : ∀ {k l vs ws e}, k ≤ l → KeepsVariables vs ws → Leaves k vs e → Leaves l ws e
  gives_mono : ∀ {k l vs ws e}, k ≤ l → KeepsVariables vs ws → Gives k vs e → Gives l ws e
  leaves_of_gives : ∀ {k vs e}, Gives k vs e → Leaves k vs e
  -- expressions as they are made
  cutOff : ∀ {k vs} kind, Gives k vs (.other kind [])
  literal : ∀ {k vs} value, Gives k vs (.literal value)
  name : ∀ {k c n st vs} x, Place c n → State st → KeepsVariables st.variableDecls vs → Gives k vs (.name x (c.lookup? st x))
  fieldAccess : ∀ {k c n st vs e} object x, Place c n → State st → KeepsVariables st.variableDecls vs → Gives k vs e →
    Gives (k + 1) vs (.fieldAccess e x (c.fieldBinding? st object x))
  binary : ∀ {k vs left right} operator, Gives k vs left → Gives k vs right → Gives (k + 1) vs (.binary operator left right)
  other : ∀ {k vs es} kind, (∀ e ∈ es, Leaves k vs e) → Gives (k + 1) vs (.other kind es)
  invoked : ∀ {k c n st vs arguments receiver}, Place c n → n.kind = .methodInvocation → State st →
    KeepsVariables st.variableDecls vs → (∀ e ∈ arguments, Gives k vs e) →
    receiver.isSome = (n.child? .object).isSome → (∀ e, receiver = some e → Gives k vs e) →
    Gives (k + 1) vs (.call (c.invoked st n arguments receiver))
  created : ∀ {k c n vs arguments body}, Place c n → n.kind = .objectCreationExpression → (∀ e ∈ arguments, Gives k vs e) →
    (∀ e ∈ body, Leaves k vs e) → Gives (k + 1) vs (.call (c.created n arguments body))
  delegated : ∀ {k c n vs arguments}, Place c n → n.kind = .explicitConstructorInvocation →
    (∀ e ∈ arguments, Gives k vs e) → Leaves (k + 1) vs (.call (c.delegated n arguments))

namespace LoweringLaw

variable {L : LoweringLaw} {k l : Nat} {vs ws : Array VariableDecl} {es fs : List Expr} {e : Expr}

/-- the law holds of all expressions of a list -/
def AllLeave (L : LoweringLaw) (k : Nat) (vs : Array VariableDecl) (es : List Expr) : Prop :=
  ∀ e ∈ es, L.Leaves k vs e

theorem AllLeave.nil : L.AllLeave k vs [] :=
  List.forall_mem_nil _

theorem AllLeave.singleton (h : L.Leaves k vs e) : L.AllLeave k vs [e] :=
  fun _ he => List.mem_singleton.1 he ▸ h

theorem AllLeave.append (h : L.AllLeave k vs es) (h' : L.AllLeave k vs fs) : L.AllLeave k vs (es ++ fs) :=
  fun e he => (List.mem_append.1 he).elim (h e) (h' e)

theorem AllLeave.flatten {ess : List (List Expr)} (h : ∀ es ∈ ess, L.AllLeave k vs es) : L.AllLeave k vs ess.flatten := by
  intro e he
  obtain ⟨es, hes, he⟩ := List.mem_flatten.1 he
  exact h es hes e he

theorem AllLeave.mono (h : L.AllLeave k vs es) (hl : k ≤ l) (hk : KeepsVariables vs ws) : L.AllLeave l ws es :=
  fun e he => L.leaves_mono hl hk (h e he)

theorem AllLeave.later (h : L.AllLeave k vs es) (hk : KeepsVariables vs ws) : L.AllLeave k ws es :=
  h.mono le_rfl hk

theorem Gives.later (h : L.Gives k vs e) (hk : KeepsVariables vs ws) : L.Gives k ws e :=
  L.gives_mono le_rfl hk h

end LoweringLaw

/-! ## Declarations -/

namespace Lower

variable {L : LoweringLaw} {c : LowerContext} {n : Node} {vs : Array VariableDecl} {α : Type} {x : Lower α}
  {P : Array VariableDecl → α → Prop}

theorem Upholds.scoped (h : Upholds L.Stops L.State vs x P) : Upholds L.Stops L.State vs (Lower.inScope x) P :=
  h.inScope L.opened fun st hst => L.closed st 1 hst

/-- a variable whose type and initializer keep to the law -/
theorem Upholds.variable {k : Nat} (hk : k ≤ L.limit) {v : VariableDecl} (ht : ∀ o, v.declaredType = some o → L.Typed o)
    (he : ∀ e, v.initializer = some e → L.Leaves k vs e) : Upholds L.Stops L.State vs (Lower.declare v) fun _ _ => True :=
  .declare fun _ hst hvs => L.declared hst ht fun e hv => L.leaves_mono hk hvs (he e hv)

theorem Upholds.declareParameters (hn : L.Place c n) :
    Upholds L.Stops L.State vs (Lower.declareParameters c n) fun _ _ => True :=
  .forM fun p hp _ => .variable L.limit.zero_le (L.parameter hn p hp) nofun

theorem Upholds.declareUntyped (c : LowerContext) (name location : Node) :
    Upholds L.Stops L.State vs (Lower.declareUntyped c name location) fun _ _ => True :=
  .variable L.limit.zero_le nofun nofun

end Lower

/-! ## Levels -/

/-- the nodes inside a node are lowered by the law, so many levels from the deepest -/
structure Inner.Lawful (inner : Inner) (L : LoweringLaw) (k : Nat) : Prop where
  within : k ≤ L.limit
  splice : ∀ (c : LowerContext) (n : Node) (vs : Array VariableDecl), L.Place c n →
    Lower.Upholds L.Stops L.State vs (inner.splice c n) (L.AllLeave k)
  expression : ∀ (c : LowerContext) (n : Node) (vs : Array VariableDecl), L.Place c n →
    Lower.Upholds L.Stops L.State vs (inner.expression c n) (L.Gives k)

namespace LoweringLaw

variable {L : LoweringLaw} {c : LowerContext} {n m : Node}

theorem named (hn : L.Place c n) (hm : m ∈ n.namedChildren) : L.Place c m :=
  L.inside hn (List.mem_of_mem_filter hm)

theorem role (hn : L.Place c n) {r : Role} (hm : n.child? r = some m) : L.Place c m :=
  L.inside hn (List.mem_of_find?_eq_some hm)

end LoweringLaw

namespace Inner

open Lower LoweringLaw

variable {inner : Inner} {L : LoweringLaw} {k : Nat} {c : LowerContext} {n : Node} {vs : Array VariableDecl}

theorem Lawful.children (h : inner.Lawful L k) (hn : L.Place c n) :
    Upholds L.Stops L.State vs (inner.children c n) (L.AllLeave k) := by
  refine (Upholds.mapM (fun m hm ws => h.splice c m ws (named hn hm)) fun ws ws' hk es hes => hes.later hk).bind
    fun ws _ ess hess => .pure fun ws' hk => ?_
  exact (AllLeave.flatten hess).later hk

theorem Lawful.child (h : inner.Lawful L k) (hn : L.Place c n) (r : Role) :
    Upholds L.Stops L.State vs (inner.child c n r) (L.AllLeave k) := by
  rw [Inner.child]
  cases hm : n.child? r with
  | none => exact .pure fun _ _ => .nil
  | some m => exact h.splice c m vs (role hn hm)

theorem Lawful.opaqueNode (h : inner.Lawful L k) (hn : L.Place c n) :
    Upholds L.Stops L.State vs (inner.opaqueNode c n) (L.Gives (k + 1)) :=
  (h.children hn).bind fun _ _ _ hes => .pure fun _ hk => L.other _ (hes.later hk)

theorem Lawful.literal (h : inner.Lawful L k) (hn : L.Place c n) (value : Option Literal) :
    Upholds L.Stops L.State vs (inner.literal c n value) (L.Gives (k + 1)) := by
  cases value with
  | none => exact h.opaqueNode hn
  | some v => exact .pure fun _ _ => L.literal v

/-! ## Calls -/

theorem Lawful.arguments (h : inner.Lawful L k) (hn : L.Place c n) :
    Upholds L.Stops L.State vs (inner.arguments c n) fun ws es => ∀ e ∈ es, L.Gives k ws e := by
  rw [Inner.arguments]
  cases hm : n.child? .arguments with
  | none => exact .pure fun _ _ => List.forall_mem_nil _
  | some list =>
    exact .mapM (fun m hmem ws => h.expression c m ws (named (role hn hm) hmem)) fun ws ws' hk e he => he.later hk

/-- owner and target of a method invocation are known before its receiver is lowered -/
theorem Lawful.methodInvocation (h : inner.Lawful L k) (hn : L.Place c n) (hkind : n.kind = .methodInvocation) :
    Upholds L.Stops L.State vs (inner.methodInvocation c n) fun ws call => L.Gives (k + 1) ws (.call call) := by
  refine (h.arguments hn).bind fun ws _ arguments harguments => .get fun st hst hws => ?_
  have invoked {ws' : Array VariableDecl} (hk : KeepsVariables st.variableDecls ws') {receiver : Option Expr}
      (hr : receiver.isSome = (n.child? .object).isSome) (he : ∀ e, receiver = some e → L.Gives k ws' e) :
      L.Gives (k + 1) ws' (.call (c.invoked st n arguments receiver)) :=
    L.invoked hn hkind hst hk (fun e hmem => (harguments e hmem).later (hws.trans hk)) hr he
  unfold LowerContext.invoked at invoked
  cases hm : n.child? .object with
  | none =>
    rw [hm] at invoked
    refine .bind (P := fun _ r => r = none) (.pure fun _ _ => rfl) fun ws' hk r hr => .pure fun ws'' hk' => ?_
    subst hr
    exact invoked (hk.trans hk') rfl nofun
  | some object =>
    rw [hm] at invoked
    refine .bind (P := fun ws r => ∃ e, r = some e ∧ L.Gives k ws e)
      ((h.expression c object _ (role hn hm)).map fun _ _ hk e he => ⟨e, rfl, he.later hk⟩) fun ws' hk r hr =>
      .pure fun ws'' hk' => ?_
    obtain ⟨e, rfl, he⟩ := hr
    refine invoked (hk.trans hk') rfl ?_
    rintro _ ⟨⟩
    exact he.later hk'

theorem Lawful.objectCreation (h : inner.Lawful L k) (hn : L.Place c n) (hkind : n.kind = .objectCreationExpression) :
    Upholds L.Stops L.State vs (inner.objectCreation c n) fun ws call => L.Gives (k + 1) ws (.call call) := by
  refine (h.arguments hn).bind fun ws _ arguments harguments => ?_
  have created {ws' : Array VariableDecl} (hk : KeepsVariables ws ws') {body : List Expr} (hbody : L.AllLeave k ws' body) :
      L.Gives (k + 1) ws' (.call (c.created n arguments body)) :=
    L.created hn hkind (fun e hmem => (harguments e hmem).later hk) hbody
  cases hm : n.childOfKind? .classBody with
  | none =>
    refine .bind (P := fun _ body => body = []) (.pure fun _ _ => rfl) fun ws' hk body hbody => .pure fun ws'' hk' => ?_
    exact created (hk.trans hk') (hbody ▸ .nil)
  | some m =>
    have hbody : L.Place c m := L.inside hn (List.mem_of_find?_eq_some hm)
    exact (h.children hbody).scoped.bind fun ws' hk body hes => .pure fun ws'' hk' =>
      created (hk.trans hk') (hes.later hk')

theorem Lawful.constructorInvocation (h : inner.Lawful L k) (hn : L.Place c n)
    (hkind : n.kind = .explicitConstructorInvocation) :
    Upholds L.Stops L.State vs (inner.constructorInvocation c n) fun ws call => L.Leaves (k + 1) ws (.call call) :=
  (h.arguments hn).bind fun _ _ _ harguments => .pure fun _ hk =>
    L.delegated hn hkind fun e he => (harguments e he).later hk

/-! ## Other expressions -/

theorem Lawful.fieldAccess (h : inner.Lawful L k) (hn : L.Place c n) :
    Upholds L.Stops L.State vs (inner.fieldAccess c n) (L.Gives (k + 1)) := by
  unfold Inner.fieldAccess
  split
  · rename_i object fieldNode hobject _
    refine .get fun st hst _ => (h.expression c object _ (role hn hobject)).bind fun ws hk e he => .pure fun ws' hk' => ?_
    exact L.fieldAccess object _ hn hst (hk.trans hk') (he.later hk')
  · exact h.opaqueNode hn

theorem Lawful.binary (h : inner.Lawful L k) (hn : L.Place c n) :
    Upholds L.Stops L.State vs (inner.binary c n) (L.Gives (k + 1)) := by
  unfold Inner.binary
  split
  · rename_i left operator right hleft _ hright
    refine (h.expression c left _ (role hn hleft)).bind fun ws _ l hl => ?_
    refine (h.expression c right _ (role hn hright)).bind fun ws' hk r hr => .pure fun ws'' hk' => ?_
    exact L.binary _ (hl.later (hk.trans hk')) (hr.later hk')
  · exact h.opaqueNode hn

theorem Lawful.lambda (h : inner.Lawful L k) (hn : L.Place c n) :
    Upholds L.Stops L.State vs (inner.lambda c n) (L.Gives (k + 1)) := by
  have body (ws : Array VariableDecl) :
      Upholds L.Stops L.State ws (do return .other n.kind.render (← inner.child c n .body)) (L.Gives (k + 1)) :=
    (h.child hn .body).bind fun _ _ _ hes => .pure fun _ hk => L.other _ (hes.later hk)
  refine .scoped ?_
  split
  · exact body vs
  · rename_i list hlist
    split
    · exact (Upholds.declareUntyped c _ _).bind fun ws _ _ _ => body ws
    · exact (Upholds.forM fun _ _ _ => .declareUntyped c _ _).bind fun ws _ _ _ => body ws
    · exact (Upholds.declareParameters (role hn hlist)).bind fun ws _ _ _ => body ws

theorem Lawful.ofExpression (h : inner.Lawful L k) (hn : L.Place c n) :
    Upholds L.Stops L.State vs (inner.ofExpression c n) (L.Gives (k + 1)) := by
  unfold Inner.ofExpression
  split
  case h_1 =>
    split
    · rename_i first rest hfirst
      have inside : first ∈ n.namedChildren := hfirst ▸ List.mem_cons_self
      exact (h.expression c first vs (named hn inside)).imp fun ws e he => L.gives_mono k.le_succ (.refl ws) he
    · exact .pure fun _ _ => L.cutOff _
  case h_2 hkind => exact .lift (fun _ => L.faulty hn hkind) fun value => h.literal hn value
  case h_3 | h_4 | h_5 | h_6 | h_7 => exact h.literal hn _
  case h_8 | h_9 | h_10 | h_11 => exact .pure fun _ _ => L.literal _
  case h_12 => exact .get fun st hst _ => .pure fun ws hk => L.name _ hn hst hk
  case h_13 => exact h.fieldAccess hn
  case h_14 => exact h.binary hn
  case h_15 hkind => exact (h.methodInvocation hn hkind).bind fun _ _ _ hcall => .pure fun _ hk => hcall.later hk
  case h_16 hkind => exact (h.objectCreation hn hkind).bind fun _ _ _ hcall => .pure fun _ hk => hcall.later hk
  case h_17 => exact h.lambda hn
  case h_18 => exact h.opaqueNode hn

/-! ## Statements -/

/-- the type of a local variable is the declared one or, when that is not known, the type of the object it is given -/
theorem Lawful.declarator (h : inner.Lawful L k) (hn : L.Place c n) (isFinal : Bool) {type : Option String}
    (htype : ∀ o, type = some o → L.Typed o) :
    Upholds L.Stops L.State vs (inner.declarator c isFinal type n) (L.AllLeave k) := by
  unfold Inner.declarator
  split
  · exact .pure fun _ _ => .nil
  · rename_i name _
    have rest {ws : Array VariableDecl} {initializer : Option Expr} (hi : ∀ e, initializer = some e → L.Gives k ws e) :
        let created := ((initializer.bind Expr.call?).filter (·.isConstructor)).bind (·.owner)
        Upholds L.Stops L.State ws (do
          declare ⟨c.textOf name, .local, type.or created, isFinal, initializer, c.spanOf n⟩
          return initializer.toList) (L.AllLeave k) := by
      have leaves : L.AllLeave k ws initializer.toList :=
        fun e he => L.leaves_of_gives (hi e (Option.mem_toList.1 he))
      refine (Upholds.variable h.within (fun o ho => ?_) fun e he => L.leaves_of_gives (hi e he)).bind fun _ hk _ _ =>
        .pure fun _ hk' => leaves.later (hk.trans hk')
      rcases Option.or_eq_some_iff.1 ho with ho | ⟨-, ho⟩
      · exact htype o ho
      · obtain ⟨call, hcall, ho⟩ := Option.bind_eq_some_iff.1 ho
        obtain ⟨hcall, hconstructor⟩ := Option.filter_eq_some_iff.1 hcall
        obtain ⟨e, he, hcall⟩ := Option.bind_eq_some_iff.1 hcall
        exact L.creates (Expr.eq_of_call? hcall ▸ hi e he) hconstructor o ho
    split
    · exact .bind (P := fun _ i => i = none) (.pure fun _ _ => rfl) fun ws _ i hi => rest (by simp [hi])
    · rename_i value hvalue
      refine .bind (P := fun ws i => ∀ e, i = some e → L.Gives k ws e)
        ((h.expression c value vs (role hn hvalue)).map fun _ _ hk e he => ?_) fun ws _ i hi => rest hi
      rintro _ ⟨⟩
      exact he.later hk

theorem Lawful.localDeclaration (h : inner.Lawful L k) (hn : L.Place c n) :
    Upholds L.Stops L.State vs (inner.localDeclaration c n) (L.AllLeave k) :=
  (Upholds.mapM (fun _ hm _ => h.declarator (L.inside hn (List.mem_of_mem_filter hm)) _ (L.type hn))
    fun _ _ hk _ hes => hes.later hk).bind fun _ _ _ hess => .pure fun _ hk => (AllLeave.flatten hess).later hk

theorem Lawful.enhancedFor (h : inner.Lawful L k) (hn : L.Place c n) :
    Upholds L.Stops L.State vs (inner.enhancedFor c n) (L.AllLeave k) := by
  refine .scoped ((h.child hn .value).bind fun ws _ value hvalue => ?_)
  have body {ws' : Array VariableDecl} (hk : KeepsVariables ws ws') :
      Upholds L.Stops L.State ws' (do return value ++ (← inner.child c n .body)) (L.AllLeave k) :=
    (h.child hn .body).bind fun _ hk' _ hes => .pure fun _ hk'' =>
      (hvalue.later ((hk.trans hk').trans hk'')).append (hes.later hk'')
  split
  · exact (Upholds.variable h.within (L.type hn) (by simp)).bind fun ws' hk _ _ => body hk
  · exact body (.refl ws)

theorem Lawful.resource (h : inner.Lawful L k) (hn : L.Place c n) :
    Upholds L.Stops L.State vs (inner.resource c n) (L.AllLeave k) := by
  unfold Inner.resource
  split
  · rename_i name value _ hvalue
    refine (h.expression c value vs (role hn hvalue)).bind fun ws _ e he => ?_
    have leaves : L.Leaves k ws e := L.leaves_of_gives he
    refine (Upholds.variable h.within (L.type hn) ?_).bind fun ws' hk _ _ => .pure fun ws'' hk' =>
      .singleton (L.leaves_mono le_rfl (hk.trans hk') leaves)
    rintro _ ⟨⟩
    exact leaves
  · exact h.children hn

theorem Lawful.localMethod (h : inner.Lawful L k) (hn : L.Place c n) :
    Upholds L.Stops L.State vs (inner.localMethod c n) (L.AllLeave k) := by
  refine .scoped ?_
  split
  · rename_i list hlist
    exact (Upholds.declareParameters (role hn hlist)).bind fun _ _ _ _ => h.child hn .body
  · exact h.child hn .body

theorem Lawful.localType (h : inner.Lawful L k) (hn : L.Place c n) :
    Upholds L.Stops L.State vs (inner.localType c n) (L.AllLeave k) := by
  unfold Inner.localType
  split
  · rename_i body hbody
    exact .scoped (h.children (L.localType (role hn hbody)))
  · exact .pure fun _ _ => .nil

/-- an explicit constructor call is the only statement that is an expression itself -/
theorem Lawful.ofStatement (h : inner.Lawful L k) (hn : L.Place c n) :
    Upholds L.Stops L.State vs (inner.ofStatement c n) (L.AllLeave (k + 1)) := by
  have higher {x : Lower (List Expr)} (hx : Upholds L.Stops L.State vs x (L.AllLeave k)) :
      Upholds L.Stops L.State vs x (L.AllLeave (k + 1)) :=
    hx.imp fun ws _ hes => hes.mono k.le_succ (.refl ws)
  unfold Inner.ofStatement
  split
  case h_1 | h_2 | h_3 | h_4 | h_5 => exact .pure fun _ _ => .nil
  case h_6 | h_7 | h_8 | h_9 | h_10 | h_11 | h_12 => exact higher (h.children hn).scoped
  case h_13 | h_14 => exact higher (h.localDeclaration hn)
  case h_15 => exact higher (h.enhancedFor hn)
  case h_16 =>
    split
    · exact (Upholds.declareUntyped c _ _).bind fun _ _ _ _ => .pure fun _ _ => .nil
    · exact .pure fun _ _ => .nil
  case h_17 => exact higher (h.resource hn)
  case h_18 | h_19 => exact higher (h.localMethod hn)
  case h_20 hkind =>
    exact (h.constructorInvocation hn hkind).bind fun _ _ _ hcall => .pure fun _ hk =>
      .singleton (L.leaves_mono le_rfl hk hcall)
  case h_21 =>
    split_ifs
    · exact higher (h.localType hn)
    · exact higher ((h.expression c n vs hn).bind fun _ _ _ he => .pure fun _ hk =>
        .singleton (L.leaves_of_gives (he.later hk)))
    · exact higher (h.children hn)

/-- **One level keeps to the law** when the level inside it does. -/
theorem Lawful.step (h : inner.Lawful L k) (hk : k + 1 ≤ L.limit) :
    Inner.Lawful ⟨inner.ofStatement, inner.ofExpression⟩ L (k + 1) :=
  ⟨hk, fun _ _ _ hn => h.ofStatement hn, fun _ _ _ hn => h.ofExpression hn⟩

/-- **Every level of a body keeps to the law.** -/
theorem ofLevels_lawful (L : LoweringLaw) (levels : Nat) (hl : levels ≤ L.limit) : (ofLevels levels).Lawful L levels := by
  induction levels with
  | zero => exact ⟨hl, fun _ _ _ _ => .pure fun _ _ => .nil, fun _ _ _ _ => .pure fun _ _ => L.cutOff _⟩
  | succ levels ih => exact (ih (Nat.le_of_succ_le hl)).step hl

end Inner

end CallLint
