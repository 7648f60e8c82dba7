/-
Lowering binds names by scope. At each level of a body a node is lowered along its events (`Inner.Follows`); one lemma for
each construct goes from one level to the level around it, and `Inner.ofLevels_follows` to all of them.
-/
import CallLint.Proofs.Scopes.Followed

namespace CallLint

open Lower

/-- what lies inside a node is lowered along its events -/
structure Inner.Follows (inner : Inner) (t : Trace) (s : Source) (vs : List VariableDecl)
    (outside : String → Option VariableId) : Prop where
  splice : ∀ (c : LowerContext) (n : Node) (scopes : List Node), c.source = s → c.outside = outside →
    Lower.Follows s vs outside scopes (t.splice n) (inner.splice c n) fun xs es => namesIn es = xs
  expression : ∀ (c : LowerContext) (n : Node) (scopes : List Node), c.source = s → c.outside = outside →
    Lower.Follows s vs outside scopes (t.expression n) (inner.expression c n) fun xs e => e.names = xs

namespace Inner

variable {inner : Inner} {t : Trace} {c : LowerContext} {vs : List VariableDecl} {scopes : List Node} {n : Node}

theorem Follows.children (h : inner.Follows t c.source vs c.outside) :
    Lower.Follows c.source vs c.outside scopes (t.children n) (inner.children c n) fun xs es => namesIn es = xs :=
  (Follows.mapM fun m _ => h.splice c m scopes rfl rfl).give fun xs ess hess => by rw [namesIn_flatten, hess]

theorem Follows.child (h : inner.Follows t c.source vs c.outside) (r : Role) :
    Lower.Follows c.source vs c.outside scopes (t.child n r) (inner.child c n r) fun xs es => namesIn es = xs := by
  rw [Trace.child, Inner.child]
  cases n.child? r with
  | none => exact .pure rfl
  | some m => exact h.splice c m scopes rfl rfl

theorem Follows.opaqueNode (h : inner.Follows t c.source vs c.outside) :
    Lower.Follows c.source vs c.outside scopes (t.children n) (inner.opaqueNode c n) fun xs e => e.names = xs :=
  h.children.give fun _ _ hes => hes

theorem Follows.literal (h : inner.Follows t c.source vs c.outside) (value : Option Literal) :
    Lower.Follows c.source vs c.outside scopes (t.literal n value) (inner.literal c n value) fun xs e => e.names = xs := by
  cases value with
  | none => exact h.opaqueNode
  | some v => exact .pure rfl

/-! ## Calls -/

theorem Follows.arguments (h : inner.Follows t c.source vs c.outside) :
    Lower.Follows c.source vs c.outside scopes (t.arguments n) (inner.arguments c n) fun xs es => namesIn es = xs := by
  rw [Trace.arguments, Inner.arguments]
  cases n.child? .arguments with
  | none => exact .pure rfl
  | some list =>
    simp only [namesIn_eq]
    exact .mapM fun m _ => h.expression c m scopes rfl rfl

theorem Follows.methodInvocation (h : inner.Follows t c.source vs c.outside) :
    Lower.Follows c.source vs c.outside scopes (t.methodInvocation n) (inner.methodInvocation c n) fun xs call =>
      callNames call = xs := by
  refine h.arguments.bind fun xs arguments hargs => .get fun st => ?_
  cases n.child? .object with
  | none =>
    dsimp only
    refine .pure ?_
    rw [callNames, optionNames, namesIn_nil, hargs, List.append_nil]
  | some object =>
    dsimp only
    refine Follows.give (P := fun ys r => optionNames r = ys)
      ((h.expression c object scopes rfl rfl).map fun ys e he => he) fun ys r hr => ?_
    rw [callNames, namesIn_nil, hargs, hr, List.append_nil]

theorem Follows.objectCreation (h : inner.Follows t c.source vs c.outside) :
    Lower.Follows c.source vs c.outside scopes (t.objectCreation n) (inner.objectCreation c n) fun xs call =>
      callNames call = xs := by
  refine h.arguments.bind fun xs arguments hargs => ?_
  cases n.childOfKind? .classBody with
  | none =>
    refine .pure ?_
    rw [callNames, optionNames, namesIn_nil, hargs, List.append_nil]
  | some body =>
    refine h.children.inScope.give fun ys es hes => ?_
    rw [callNames, optionNames, hargs, hes, List.nil_append]

theorem Follows.constructorInvocation (h : inner.Follows t c.source vs c.outside) :
    Lower.Follows c.source vs c.outside scopes (t.arguments n) (inner.constructorInvocation c n) fun xs call =>
      callNames call = xs :=
  h.arguments.give fun xs arguments hargs => by
    rw [callNames, optionNames, namesIn_nil, hargs, List.append_nil, List.append_nil]

/-! ## Other expressions -/

theorem Follows.fieldAccess (h : inner.Follows t c.source vs c.outside) :
    Lower.Follows c.source vs c.outside scopes (t.fieldAccess n) (inner.fieldAccess c n) fun xs e => e.names = xs := by
  unfold Trace.fieldAccess Inner.fieldAccess
  cases n.child? .object <;> cases n.child? .field
  case some.some object field => exact .get fun st => (h.expression c object scopes rfl rfl).give fun _ _ he => he
  all_goals exact h.opaqueNode

theorem Follows.binary (h : inner.Follows t c.source vs c.outside) :
    Lower.Follows c.source vs c.outside scopes (t.binary n) (inner.binary c n) fun xs e => e.names = xs := by
  unfold Trace.binary Inner.binary
  cases n.child? .left <;> cases n.child? .operator <;> cases n.child? .right
  case some.some.some left operator right =>
    refine (h.expression c left scopes rfl rfl).bind fun xs l hl => ?_
    refine (h.expression c right scopes rfl rfl).give fun ys r hr => ?_
    rw [Expr.names, hl, hr]
  all_goals exact h.opaqueNode

theorem Follows.lambda (h : inner.Follows t c.source vs c.outside) :
    Lower.Follows c.source vs c.outside scopes [.scope n (Trace.lambdaParameters c.source n ++ t.child n .body)]
      (inner.lambda c n) fun xs e => e.names = xs := by
  have body : Lower.Follows c.source vs c.outside (n :: scopes) (t.child n .body)
      (do return Expr.other n.kind.render (← inner.child c n .body)) fun xs e => e.names = xs :=
    (h.child .body).give fun _ _ hes => hes
  -- parameters use no names
  have after {es : List Event} {x : Lower PUnit}
      (hx : Lower.Follows c.source vs c.outside (n :: scopes) es x fun xs _ => xs = []) :
      Lower.Follows c.source vs c.outside (n :: scopes) (es ++ t.child n .body)
        (do x; return Expr.other n.kind.render (← inner.child c n .body)) fun xs e => e.names = xs :=
    hx.bind fun xs _ hxs => by
      subst hxs
      exact body
  refine .inScope ?_
  unfold Trace.lambdaParameters
  cases n.child? .parameters with
  | none => exact body
  | some list =>
    dsimp only
    cases list.kind
    case identifier => exact after (.declareUntyped rfl list list n.start)
    case inferredParameters => exact after (.forM fun p _ => .declareUntyped rfl p p n.start)
    all_goals exact after (.declareParameters rfl n list)

theorem Follows.ofExpression (h : inner.Follows t c.source vs c.outside) :
    Lower.Follows c.source vs c.outside scopes (t.ofExpression c.source n) (inner.ofExpression c n) fun xs e =>
      e.names = xs := by
  unfold Trace.ofExpression Inner.ofExpression
  cases hk : n.kind
  case parenthesizedExpression =>
    dsimp only
    cases n.namedChildren with
    | nil => exact .pure rfl
    | cons first rest => exact h.expression c first scopes rfl rfl
  case stringLiteral =>
    refine .lift fun value hvalue => ?_
    rw [show Literal.ofStringText? (c.source.textOf n) = .ok value from hvalue]
    exact h.literal value
  case characterLiteral | decimalIntegerLiteral | hexIntegerLiteral | octalIntegerLiteral | binaryIntegerLiteral =>
    exact h.literal _
  case decimalFloatingPointLiteral | hexFloatingPointLiteral | trueLiteral | falseLiteral => exact .pure rfl
  case identifier => exact .name c (c.textOf n) n
  case fieldAccess => exact h.fieldAccess
  case binaryExpression => exact h.binary
  case methodInvocation => exact h.methodInvocation.give fun _ _ hcall => hcall
  case objectCreationExpression => exact h.objectCreation.give fun _ _ hcall => hcall
  case lambdaExpression => exact h.lambda
  all_goals exact h.opaqueNode

/-! ## Statements -/

theorem Follows.declarator (h : inner.Follows t c.source vs c.outside) (isFinal : Bool) (type : Option String) :
    Lower.Follows c.source vs c.outside scopes (t.declarator c.source n) (inner.declarator c isFinal type n)
      fun xs es => namesIn es = xs := by
  unfold Trace.declarator Inner.declarator
  cases n.child? .name with
  | none => exact .pure rfl
  | some name =>
    have rest {initializer : Option Expr} {xs : List (String × Option VariableId)} (hi : optionNames initializer = xs)
        {v : VariableDecl} (hv : v.Is c.source ⟨c.source.textOf name, .local, n, n.stop⟩) :
        Lower.Follows c.source vs c.outside scopes [.declare ⟨c.source.textOf name, .local, n, n.stop⟩]
          (do declare v; return initializer.toList) fun ys es => namesIn es = xs ++ ys :=
      (Follows.declare hv).give fun ys _ hys => by rw [namesIn_toList, hi, hys, List.append_nil]
    dsimp only
    cases n.child? .value with
    | none =>
      exact Follows.bind (P := fun xs i => optionNames i = xs) (.pure rfl) fun xs i hi => rest hi ⟨rfl, rfl, rfl⟩
    | some value =>
      exact Follows.bind (P := fun xs i => optionNames i = xs) ((h.expression c value scopes rfl rfl).map fun _ _ he => he)
        fun xs i hi => rest hi ⟨rfl, rfl, rfl⟩

theorem Follows.localDeclaration (h : inner.Follows t c.source vs c.outside) :
    Lower.Follows c.source vs c.outside scopes ((n.childrenIn .declarator).flatMap (t.declarator c.source))
      (inner.localDeclaration c n) fun xs es => namesIn es = xs :=
  (Follows.mapM fun _ _ => h.declarator _ _).give fun xs ess hess => by rw [namesIn_flatten, hess]

theorem Follows.enhancedFor (h : inner.Follows t c.source vs c.outside) :
    Lower.Follows c.source vs c.outside scopes [.scope n (t.enhancedFor c.source n)] (inner.enhancedFor c n)
      fun xs es => namesIn es = xs := by
  refine .inScope ((h.child .value).bind fun xs value hvalue => ?_)
  have body : Lower.Follows c.source vs c.outside (n :: scopes) (t.child n .body)
      (do return value ++ (← inner.child c n .body)) fun ys es => namesIn es = xs ++ ys :=
    (h.child .body).give fun ys es hes => by rw [namesIn_append, hvalue, hes]
  cases n.child? .name with
  | none => exact body
  | some name =>
    refine (Follows.declare ⟨rfl, rfl, rfl⟩).bind fun ys _ hys => ?_
    subst hys
    exact body

theorem Follows.resource (h : inner.Follows t c.source vs c.outside) :
    Lower.Follows c.source vs c.outside scopes (t.resource c.source n) (inner.resource c n)
      fun xs es => namesIn es = xs := by
  unfold Trace.resource Inner.resource
  cases n.child? .name <;> cases n.child? .value
  case some.some name value =>
    refine (h.expression c value scopes rfl rfl).bind fun xs e he => ?_
    refine (Follows.declare ⟨rfl, rfl, rfl⟩).give fun ys _ hys => ?_
    rw [namesIn_singleton, he, hys, List.append_nil]
  all_goals exact h.children

/-- parameters, and then what has them -/
theorem follows_parametersOf {α : Type} {m : Node} {es : List Event} {x : Lower α}
    {P : List (String × Option VariableId) → α → Prop} (hx : Lower.Follows c.source vs c.outside (m :: scopes) es x P) :
    Lower.Follows c.source vs c.outside (m :: scopes) (Trace.parametersOf c.source n ++ es) (do
      match n.child? .parameters with
      | some list => declareParameters c list
      | none => pure ()
      x) P := by
  unfold Trace.parametersOf
  cases n.child? .parameters with
  | none => exact hx
  | some list =>
    refine (Follows.declareParameters rfl n list).bind fun xs _ hxs => ?_
    subst hxs
    exact hx

theorem Follows.localMethod (h : inner.Follows t c.source vs c.outside) :
    Lower.Follows c.source vs c.outside scopes [.scope n (Trace.parametersOf c.source n ++ t.child n .body)]
      (inner.localMethod c n) fun xs es => namesIn es = xs := by
  exact .inScope (follows_parametersOf (h.child .body))

theorem Follows.localType (h : inner.Follows t c.source vs c.outside) :
    Lower.Follows c.source vs c.outside scopes (t.localType n) (inner.localType c n) fun xs es => namesIn es = xs := by
  unfold Trace.localType Inner.localType
  cases n.child? .body with
  | none => exact .pure rfl
  | some body => exact .inScope (Follows.children (c := { c with inLocalType := true }) h)

theorem Follows.ofStatement (h : inner.Follows t c.source vs c.outside) :
    Lower.Follows c.source vs c.outside scopes (t.ofStatement c.source n) (inner.ofStatement c n)
      fun xs es => namesIn es = xs := by
  have other (kind : NodeKind) : Lower.Follows c.source vs c.outside scopes
      (if kind.isTypeDeclaration then t.localType n else if kind.isExpression then t.expression n else t.children n)
      (if kind.isTypeDeclaration then inner.localType c n
        else if kind.isExpression then do return [← inner.expression c n] else inner.children c n)
      fun xs es => namesIn es = xs := by
    split_ifs
    · exact h.localType
    · exact (h.expression c n scopes rfl rfl).give fun _ _ he => (namesIn_singleton _).trans he
    · exact h.children
  unfold Trace.ofStatement Inner.ofStatement
  cases n.kind
  case lineComment | blockComment | modifiers | annotationMarker | annotationWithArguments => exact .pure rfl
  case block | constructorBody | classBody | switchBlock | forStatement | catchClause | tryWithResourcesStatement =>
    exact h.children.inScope
  case localVariableDeclaration | fieldDeclaration => exact h.localDeclaration
  case enhancedForStatement => exact h.enhancedFor
  case catchFormalParameter =>
    cases n.child? .name with
    | none => exact .pure rfl
    | some name => exact (Follows.declareUntyped rfl name n n.stop).give fun xs _ hxs => hxs.symm
  case resource => exact h.resource
  case methodDeclaration | constructorDeclaration => exact h.localMethod
  case explicitConstructorInvocation =>
    exact h.constructorInvocation.give fun _ _ hcall => (namesIn_singleton _).trans hcall
  all_goals exact other _

/-- **Every level of a body binds names by scope.** -/
theorem ofLevels_follows (s : Source) (vs : List VariableDecl) (outside : String → Option VariableId) (levels : Nat) :
    (ofLevels levels).Follows (Trace.ofLevels s levels) s vs outside := by
  induction levels with
  | zero => exact ⟨fun _ _ _ _ _ => .pure rfl, fun _ _ _ _ _ => .pure rfl⟩
  | succ levels ih =>
    constructor
    · rintro c n scopes rfl rfl
      exact ih.ofStatement
    · rintro c n scopes rfl rfl
      exact ih.ofExpression

end Inner

end CallLint
