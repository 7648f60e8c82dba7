/-
What holds of every call that lowering makes. A call is made at a method invocation, at the creation of an object or at
an explicit constructor call; `LowerContext.invoked`, `created` and `delegated` are these calls. `CallLaw` says that a
property holds of each of them, when they stand in a tree and the types of all variables that are declared before have a
property of their own. Then that the property holds of all calls in an expression is a law of lowering
(`CallLaw.lowering`).
-/
import CallLint.Proofs.Laws.Levels
import CallLint.Proofs.Layout.Texts
import CallLint.Proofs.Visits

namespace CallLint

/-! ## Calls in expressions -/

/-- the property holds of every call in the expression -/
def Expr.EachCall (Q : Call Expr → Prop) (e : Expr) : Prop :=
  ∀ call ∈ e.calls, Q call

/-- a constructor call in place of the expression is one of a type with the property -/
def Expr.Creates (T : String → Prop) (e : Expr) : Prop :=
  ∀ call, e.call? = some call → call.isConstructor = true → ∀ o, call.owner = some o → T o

variable {T : String → Prop} {Q : Call Expr → Prop}

/-- the calls in an expression are the expression itself and the calls in its parts -/
theorem Expr.EachCall.of_parts {e : Expr} (he : ∀ call, e.call? = some call → Q call) (hp : ∀ x ∈ e.parts, x.EachCall Q) :
    e.EachCall Q := by
  intro call hcall
  rw [e.calls_eq_parts, List.mem_append, Option.mem_toList, mem_listCalls] at hcall
  rcases hcall with hcall | ⟨x, hx, hcall⟩
  · exact he call hcall
  · exact hp x hx call hcall

theorem Expr.EachCall.call {call : Call Expr} (h : Q call) (hr : ∀ e, call.receiver = some e → e.EachCall Q)
    (ha : ∀ e ∈ call.arguments, e.EachCall Q) (hb : ∀ e ∈ call.anonymousBody, e.EachCall Q) :
    (Expr.call call).EachCall Q := by
  refine .of_parts (fun _ he => Option.some.inj he ▸ h) fun x hx => ?_
  rw [parts, List.mem_append, List.mem_append, Option.mem_toList] at hx
  rcases hx with (hx | hx) | hx
  · exact hr x hx
  · exact ha x hx
  · exact hb x hx

/-! ## The calls that are made -/

/-- the context stands in a source and looks things up in declarations -/
structure LowerContext.Stands (c : LowerContext) (s : Source) (d : Declarations) : Prop where
  source : c.source = s
  declarations : c.declarations = d

/-- all variables whose type is known have a type with the property -/
def LowerState.Typed (T : String → Prop) (st : LowerState) : Prop :=
  ∀ v ∈ st.variableDecls, ∀ o, v.declaredType = some o → T o

/-- the calls that are made at the nodes of a tree have a property, and the types of the variables there another one -/
structure CallLaw (s : Source) (d : Declarations) (root : Node) (T : String → Prop) (Q : Call Expr → Prop) : Prop where
  type : ∀ n ∈ root.within, ∀ m, n.child? .type = some m → ∀ o, d.names.resolve? (s.textOf m) = some o → T o
  parameter : ∀ n ∈ root.within, ∀ p ∈ s.parametersOf n, ∀ o, d.names.resolve? p.type = some o → T o
  invocation : ∀ (c : LowerContext) (st : LowerState) (n : Node) (arguments : List Expr) (receiver : Option Expr),
    c.Stands s d → st.Typed T → n ∈ root.within → n.kind = .methodInvocation →
    receiver.isSome = (n.child? .object).isSome →
    Q (c.invoked st n arguments receiver) ∧ (Expr.call (c.invoked st n arguments receiver)).Creates T
  creation : ∀ (c : LowerContext) (n : Node) (arguments body : List Expr), c.Stands s d → n ∈ root.within →
    n.kind = .objectCreationExpression → Q (c.created n arguments body)
  delegation : ∀ (c : LowerContext) (n : Node) (arguments : List Expr), c.Stands s d → n ∈ root.within →
    n.kind = .explicitConstructorInvocation → Q (c.delegated n arguments)

/-- what holds of variables where the calls have a property -/
structure VariableDecl.Obeys (T : String → Prop) (Q : Call Expr → Prop) (v : VariableDecl) : Prop where
  type : ∀ o, v.declaredType = some o → T o
  initializer : ∀ e, v.initializer = some e → e.EachCall Q

namespace CallLaw

variable {s : Source} {d : Declarations} {root : Node} {c : LowerContext} {n : Node} {st : LowerState}

/-- types that declarations name have the property -/
theorem declaredType? (law : CallLaw s d root T Q) (hc : c.Stands s d) (hn : n ∈ root.within) :
    ∀ o, c.declaredType? n = some o → T o := by
  intro o ho
  obtain ⟨m, hm, hresolve⟩ := Option.bind_eq_some_iff.1 ho
  rw [LowerContext.resolve?, LowerContext.textOf, hc.source, hc.declarations] at hresolve
  exact law.type n hn m hm o hresolve

/-- an expression that is no call creates nothing -/
theorem creates_of_other {e : Expr} (he : e.call? = none) : e.Creates T := by
  intro call hcall
  rw [he] at hcall
  cases hcall

/-- **What holds of the calls that are made holds of all calls**, at every level of a body. -/
def lowering (law : CallLaw s d root T Q) : LoweringLaw where
  State := LowerState.Each (VariableDecl.Obeys T Q)
  Place c n := c.Stands s d ∧ n ∈ root.within
  Typed := T
  Leaves _ _ e := e.EachCall Q
  Gives _ _ e := e.EachCall Q ∧ e.Creates T
  limit := nestingLimit
  Stops := True
  inside h hm := ⟨h.1, Node.within_child h.2 hm⟩
  localType h := ⟨⟨h.1.source, h.1.declarations⟩, h.2⟩
  type h := law.declaredType? h.1 h.2
  parameter h p hp o ho := by
    rw [h.1.source] at hp
    rw [h.1.declarations] at ho
    exact law.parameter _ h.2 p hp o ho
  faulty _ _ _ := trivial
  creates h := h.2 _ rfl
  opened _ h := h
  closed _ _ h := h
  declared h ht he := h.declare ⟨ht, he⟩
  initialized i h he := h.initialized i fun _ hv => ⟨hv.type, he⟩
  leaves_mono _ _ h := h
  gives_mono _ _ h := h
  leaves_of_gives h := h.1
  cutOff _ := ⟨.of_parts nofun nofun, creates_of_other rfl⟩
  literal _ := ⟨.of_parts nofun nofun, creates_of_other rfl⟩
  name _ _ _ _ := ⟨.of_parts nofun nofun, creates_of_other rfl⟩
  fieldAccess _ _ _ _ _ he := ⟨.of_parts nofun fun x hx => List.mem_singleton.1 hx ▸ he.1, creates_of_other rfl⟩
  binary _ hl hr := by
    refine ⟨.of_parts nofun fun x hx => ?_, creates_of_other rfl⟩
    rcases List.mem_pair.1 hx with rfl | rfl
    · exact hl.1
    · exact hr.1
  other _ hes := ⟨.of_parts nofun hes, creates_of_other rfl⟩
  invoked h hkind hst _ ha hsome hr := by
    have typed : LowerState.Typed T _ := fun v hv => (hst v hv).type
    obtain ⟨hq, hcreates⟩ := law.invocation _ _ _ _ _ h.1 typed h.2 hkind hsome
    exact ⟨.call hq (fun e he => (hr e he).1) (fun e he => (ha e he).1) nofun, hcreates⟩
  created h hkind ha hb := by
    refine ⟨.call (law.creation _ _ _ _ h.1 h.2 hkind) nofun (fun e he => (ha e he).1) hb, ?_⟩
    rintro _ ⟨⟩ - o ho
    exact law.declaredType? h.1 h.2 o ho
  delegated h hkind ha := .call (law.delegation _ _ _ h.1 h.2 hkind) nofun (fun e he => (ha e he).1) nofun

end CallLaw

end CallLint
