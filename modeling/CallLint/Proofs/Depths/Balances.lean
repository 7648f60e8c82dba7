/-
Counting constructs are balanced. When the nodes inside a node are, at a nesting that is one deeper, so is the node, with one
lemma for each construct; so all nodes are, whatever their nesting (`Inner.ofLevels_balances`).

A variable that is declared where no scope is open opens one for good. Expressions declare nothing but in scopes of their
own, and this is all that is lowered where no scope is open: what is plain holds only what is plain or opens a scope
(`Node.Regular`), which is what the lemmas suppose of a node in that case and in no other.
-/
import CallLint.Proofs.Depths.Counters
import CallLint.Proofs.Scopes.Arranged

namespace CallLint

open Counted

/-- an expression, or a part of one -/
def Node.IsPlain (n : Node) : Prop :=
  n.Regular ∧ n.kind.content.isPlain = true

/-- a node whose variables lie in scopes in it -/
def Node.IsContained (n : Node) : Prop :=
  n.Regular ∧ (n.kind.content.isPlain = true ∨ n.kind.content = .scoped)

/-- the nodes inside a node are lowered alike and bring all counters back, at a nesting and in any number of local
types -/
structure Inner.Balances (m : Inner Counted) (inner : Inner) (P : Visit → Prop) (nesting : Nat) : Prop where
  splice : ∀ c n localTypes,
    Tallies n.IsContained P nesting localTypes (m.splice c n) (inner.splice (c.counted localTypes) n)
  expression : ∀ c n localTypes,
    Tallies n.IsPlain P nesting localTypes (m.expression c n) (inner.expression (c.counted localTypes) n)

namespace Inner

variable {m : Inner Counted} {inner : Inner} {P : Visit → Prop} {nesting localTypes : Nat} {q : Prop} {c : LowerContext} {n : Node}

/-! ## Nodes inside a node -/

theorem Balances.children (h : m.Balances inner P nesting) (hq : q → n.Regular ∧ n.kind.isClosed = true) :
    Tallies q P nesting localTypes (m.children c n) (inner.children (c.counted localTypes) n) := by
  refine (Tallies.mapM fun d hd => ?_).bind fun _ => .pure
  have hd := Inner.mem_children hd
  exact (h.splice c d localTypes).imp fun some => ⟨(hq some).1.child hd, (hq some).1.closed hd (hq some).2⟩

theorem Balances.child (h : m.Balances inner P nesting) (r : Role) :
    Tallies False P nesting localTypes (m.child c n r) (inner.child (c.counted localTypes) n r) := by
  rw [Inner.child, Inner.child]
  cases n.child? r with
  | none => exact .pure
  | some part => exact (h.splice c part localTypes).imp False.elim

theorem Balances.scope (h : m.Balances inner P nesting) :
    Tallies q P nesting localTypes (Counted.inScope (m.children c n))
      (Lower.inScope (inner.children (c.counted localTypes) n)) :=
  .inScope (h.children False.elim)

/-- an expression among the children of a node -/
theorem Balances.part (h : m.Balances inner P nesting) {d : Node} (hd : d ∈ n.children)
    (hk : n.kind.holdsExpressions = true) :
    Tallies n.Regular P nesting localTypes (m.expression c d) (inner.expression (c.counted localTypes) d) :=
  (h.expression c d localTypes).imp fun hn => ⟨hn.child hd, hn.expression hd hk⟩

theorem Balances.opaqueNode (h : m.Balances inner P nesting) (hq : q → n.Regular ∧ n.kind.isClosed = true) :
    Tallies q P nesting localTypes (m.opaqueNode c n) (inner.opaqueNode (c.counted localTypes) n) :=
  (h.children hq).bind fun _ => .pure

theorem Balances.literal (h : m.Balances inner P nesting) (hq : q → n.Regular ∧ n.kind.isClosed = true)
    (value : Option Literal) :
    Tallies q P nesting localTypes (m.literal c n value) (inner.literal (c.counted localTypes) n value) := by
  cases value with
  | none => exact h.opaqueNode hq
  | some v => exact .pure

/-! ## Calls -/

theorem Balances.arguments (h : m.Balances inner P nesting) (hk : n.kind.takesArguments = true) :
    Tallies n.Regular P nesting localTypes (m.arguments c n) (inner.arguments (c.counted localTypes) n) := by
  rw [Inner.arguments, Inner.arguments]
  cases hl : n.child? .arguments with
  | none => exact .pure
  | some list =>
    have hmem := Node.child?_mem hl
    refine .mapM fun argument ha => (h.expression c argument localTypes).imp fun hn => ?_
    have kind : list.kind = .argumentList :=
      NodeKind.eq_argumentList (hn.arguments hmem (Node.child?_role hl) hk)
    have ha := Inner.mem_children ha
    exact ⟨(hn.child hmem).child ha, (hn.child hmem).expression ha (by rw [kind]; rfl)⟩

theorem Balances.methodInvocation (h : m.Balances inner P nesting) (hk : n.kind = .methodInvocation) :
    Tallies n.Regular P nesting localTypes (m.methodInvocation c n) (inner.methodInvocation (c.counted localTypes) n) := by
  refine (h.arguments (by rw [hk]; rfl)).bind fun arguments => .state fun st => ?_
  cases ho : n.child? .object with
  | none => exact .bind .pure fun _ => .pure
  | some object => exact (h.part (Node.child?_mem ho) (by rw [hk]; rfl)).map.bind fun _ => .pure

theorem Balances.objectCreation (h : m.Balances inner P nesting) (hk : n.kind = .objectCreationExpression) :
    Tallies n.Regular P nesting localTypes (m.objectCreation c n) (inner.objectCreation (c.counted localTypes) n) := by
  refine (h.arguments (by rw [hk]; rfl)).bind fun arguments => ?_
  cases n.childOfKind? .classBody with
  | none => exact .bind .pure fun _ => .pure
  | some body => exact h.scope.bind fun _ => .pure

theorem Balances.constructorInvocation (h : m.Balances inner P nesting) (hk : n.kind = .explicitConstructorInvocation) :
    Tallies n.Regular P nesting localTypes (m.constructorInvocation c n)
      (inner.constructorInvocation (c.counted localTypes) n) :=
  (h.arguments (by rw [hk]; rfl)).bind fun _ => .placed .pure

/-! ## Other expressions -/

theorem Balances.fieldAccess (h : m.Balances inner P nesting) (hk : n.kind = .fieldAccess) :
    Tallies n.Regular P nesting localTypes (m.fieldAccess c n) (inner.fieldAccess (c.counted localTypes) n) := by
  have holds : n.kind.holdsExpressions = true := by rw [hk]; rfl
  have other : Tallies n.Regular P nesting localTypes (m.opaqueNode c n) (inner.opaqueNode (c.counted localTypes) n) :=
    h.opaqueNode fun hn => ⟨hn, by rw [hk]; rfl⟩
  unfold Inner.fieldAccess
  cases ho : n.child? .object with
  | none => exact other
  | some object =>
    cases n.child? .field with
    | none => exact other
    | some field => exact .state fun st => (h.part (Node.child?_mem ho) holds).bind fun _ => .pure

theorem Balances.binary (h : m.Balances inner P nesting) (hk : n.kind = .binaryExpression) :
    Tallies n.Regular P nesting localTypes (m.binary c n) (inner.binary (c.counted localTypes) n) := by
  have holds : n.kind.holdsExpressions = true := by rw [hk]; rfl
  have other : Tallies n.Regular P nesting localTypes (m.opaqueNode c n) (inner.opaqueNode (c.counted localTypes) n) :=
    h.opaqueNode fun hn => ⟨hn, by rw [hk]; rfl⟩
  unfold Inner.binary
  cases hl : n.child? .left with
  | none => exact other
  | some left =>
    cases n.child? .operator with
    | none => exact other
    | some operator =>
      cases hr : n.child? .right with
      | none => exact other
      | some right =>
        refine (h.part (Node.child?_mem hl) holds).bind fun _ => ?_
        exact (h.part (Node.child?_mem hr) holds).bind fun _ => .pure

theorem Balances.lambda (h : m.Balances inner P nesting) :
    Tallies q P nesting localTypes (m.lambda c n) (inner.lambda (c.counted localTypes) n) := by
  have body : Tallies False P nesting localTypes (do return Expr.other n.kind.render (← m.child c n .body))
      (do return Expr.other n.kind.render (← inner.child (c.counted localTypes) n .body)) :=
    (h.child .body).bind fun _ => .pure
  refine .inScope ?_
  cases n.child? .parameters with
  | none => exact body
  | some list =>
    dsimp only
    cases list.kind
    case identifier => exact (Tallies.declare _).bind fun _ => body
    all_goals exact (Tallies.declareAll _).bind fun _ => body

theorem Balances.ofExpression (h : m.Balances inner P nesting) :
    Tallies n.IsPlain P nesting localTypes (m.ofExpression c n) (inner.ofExpression (c.counted localTypes) n) := by
  -- a lambda opens a scope, and all other expressions hold only what is contained
  by_cases hl : n.kind = .lambdaExpression
  · unfold Inner.ofExpression
    rw [hl]
    exact h.lambda
  have closed (hn : n.IsPlain) : n.Regular ∧ n.kind.isClosed = true :=
    ⟨hn.1, NodeKind.isClosed_of_plain hn.2 hl⟩
  unfold Inner.ofExpression
  cases hk : n.kind
  case parenthesizedExpression =>
    cases hc : n.namedChildren with
    | nil => exact .pure
    | cons first rest =>
      have hmem : first ∈ n.children := Inner.mem_children (by rw [hc]; exact List.mem_cons_self)
      exact (h.part hmem (by rw [hk]; rfl)).imp And.left
  case stringLiteral => exact Tallies.lift.bind fun value => h.literal closed value
  case characterLiteral | decimalIntegerLiteral | hexIntegerLiteral | octalIntegerLiteral | binaryIntegerLiteral =>
    exact h.literal closed _
  case decimalFloatingPointLiteral | hexFloatingPointLiteral | trueLiteral | falseLiteral => exact .pure
  case identifier => exact .state fun _ => .pure
  case fieldAccess => exact (h.fieldAccess hk).imp And.left
  case binaryExpression => exact (h.binary hk).imp And.left
  case methodInvocation => exact ((h.methodInvocation hk).imp And.left).bind fun _ => .pure
  case objectCreationExpression => exact ((h.objectCreation hk).imp And.left).bind fun _ => .pure
  case lambdaExpression => exact absurd hk hl
  all_goals exact h.opaqueNode closed

/-! ## Statements -/

theorem Balances.declarator (h : m.Balances inner P nesting) (isFinal : Bool) (type : Option String) :
    Tallies False P nesting localTypes (m.declarator c isFinal type n)
      (inner.declarator (c.counted localTypes) isFinal type n) := by
  have rest (initializer : Option Expr) (v : VariableDecl) :
      Tallies False P nesting localTypes (do Counted.plain (Lower.declare v); return initializer.toList)
        (do Lower.declare v; return initializer.toList) :=
    (Tallies.declare v).bind fun _ => .pure
  unfold Inner.declarator
  cases n.child? .name with
  | none => exact .pure
  | some name =>
    cases n.child? .value with
    | none => exact .bind .pure fun initializer => rest initializer _
    | some value => exact ((h.expression c value localTypes).imp False.elim).map.bind fun initializer => rest initializer _

theorem Balances.localDeclaration (h : m.Balances inner P nesting) :
    Tallies False P nesting localTypes (m.localDeclaration c n) (inner.localDeclaration (c.counted localTypes) n) :=
  (Tallies.mapM fun _ _ => h.declarator _ _).bind fun _ => .pure

theorem Balances.enhancedFor (h : m.Balances inner P nesting) :
    Tallies q P nesting localTypes (m.enhancedFor c n) (inner.enhancedFor (c.counted localTypes) n) := by
  refine .inScope ((h.child .value).bind fun value => ?_)
  have body : Tallies False P nesting localTypes (do return value ++ (← m.child c n .body))
      (do return value ++ (← inner.child (c.counted localTypes) n .body)) :=
    (h.child .body).bind fun _ => .pure
  cases n.child? .name with
  | none => exact body
  | some name => exact (Tallies.declare _).bind fun _ => body

theorem Balances.resource (h : m.Balances inner P nesting) :
    Tallies False P nesting localTypes (m.resource c n) (inner.resource (c.counted localTypes) n) := by
  have other : Tallies False P nesting localTypes (m.children c n) (inner.children (c.counted localTypes) n) :=
    h.children False.elim
  unfold Inner.resource
  cases n.child? .name with
  | none => exact other
  | some name =>
    cases n.child? .value with
    | none => exact other
    | some value =>
      refine ((h.expression c value localTypes).imp False.elim).bind fun initializer => ?_
      exact (Tallies.declare _).bind fun _ => .pure

theorem Balances.localMethod (h : m.Balances inner P nesting) :
    Tallies q P nesting localTypes (m.localMethod c n) (inner.localMethod (c.counted localTypes) n) := by
  refine .inScope ?_
  cases n.child? .parameters with
  | none => exact h.child .body
  | some list => exact (Tallies.declareAll _).bind fun _ => h.child .body

theorem Balances.localType (h : m.Balances inner P nesting) :
    Tallies q P nesting localTypes (m.localType c n) (inner.localType (c.counted localTypes) n) := by
  unfold Inner.localType
  cases n.child? .body with
  | none => exact .pure
  | some body => exact .inLocalType h.scope

/-- a node that is not a scope: a declared type, an expression, or what holds statements -/
theorem Balances.otherStatement (h : m.Balances inner P nesting) {k : NodeKind} (hk : n.kind = k)
    (content : k.content ≠ .scoped) :
    Tallies n.IsContained P nesting localTypes
      (if k.isTypeDeclaration then m.localType c n
        else if k.isExpression then do return [← m.expression c n]
        else m.children c n)
      (if k.isTypeDeclaration then inner.localType (c.counted localTypes) n
        else if k.isExpression then do return [← inner.expression (c.counted localTypes) n]
        else inner.children (c.counted localTypes) n) := by
  subst hk
  have plain (hn : n.IsContained) : n.kind.content.isPlain = true := hn.2.resolve_right content
  split_ifs with type expression
  · exact h.localType
  · refine ((h.expression c n localTypes).imp fun hn => ?_).bind fun _ => .pure
    exact ⟨hn.1, plain hn⟩
  · refine h.children fun hn => ⟨hn.1, NodeKind.isClosed_of_plain (plain hn) fun hl => expression ?_⟩
    rw [hl]
    rfl

theorem Balances.ofStatement (h : m.Balances inner P nesting) :
    Tallies n.IsContained P nesting localTypes (m.ofStatement c n) (inner.ofStatement (c.counted localTypes) n) := by
  have never {k : NodeKind} (hk : n.kind = k) (hc : k.content = .other) {x : Counted (List Expr)} {y : Lower (List Expr)}
      (hx : Tallies False P nesting localTypes x y) : Tallies n.IsContained P nesting localTypes x y := by
    refine hx.imp fun hn => ?_
    have content := hn.2
    rw [hk, hc] at content
    revert content
    decide
  unfold Inner.ofStatement
  cases hk : n.kind
  case lineComment | blockComment | modifiers | annotationMarker | annotationWithArguments => exact .pure
  case block | constructorBody | classBody | switchBlock | forStatement | catchClause | tryWithResourcesStatement =>
    exact h.scope
  case localVariableDeclaration | fieldDeclaration => exact never hk rfl h.localDeclaration
  case enhancedForStatement => exact h.enhancedFor
  case catchFormalParameter =>
    cases n.child? .name with
    | none => exact .pure
    | some name => exact never hk rfl ((Tallies.declare _).bind fun _ => .pure)
  case resource => exact never hk rfl h.resource
  case methodDeclaration | constructorDeclaration => exact h.localMethod
  case explicitConstructorInvocation =>
    exact never hk rfl (((h.constructorInvocation hk).imp False.elim).bind fun _ => .pure)
  all_goals exact h.otherStatement hk (by decide)

/-! ## All nestings -/

/-- **At every nesting nodes are lowered as at the levels that are left**, and all visits are level. -/
theorem ofLevels_balances {steps : Nat} (hs : nestingLimit - nesting < steps) :
    (ofLevels steps).Balances (Inner.ofLevels (nestingLimit - nesting)) (Visit.Level nesting) nesting := by
  induction steps generalizing nesting with
  | zero => exact absurd hs (Nat.not_lt_zero _)
  | succ steps ih =>
    by_cases hn : nesting < nestingLimit
    · have levels : nestingLimit - nesting = nestingLimit - (nesting + 1) + 1 := by omega
      have inner : (ofLevels steps).Balances (Inner.ofLevels (nestingLimit - (nesting + 1))) (Visit.Level (nesting + 1))
          (nesting + 1) := ih (by omega)
      have below (v : Visit) (hv : v.Level (nesting + 1)) : nesting < nestingLimit ∧ v.Level (nesting + 1) := ⟨hn, hv⟩
      rw [levels]
      exact ⟨fun _ _ _ => ((inner.ofStatement.mono id below).deeper hn).visit,
        fun _ _ _ => ((inner.ofExpression.mono id below).deeper hn).visit⟩
    · have limit : nestingLimit ≤ nesting := Nat.le_of_not_lt hn
      rw [Nat.sub_eq_zero_of_le limit]
      exact ⟨fun _ _ _ => .visit (.cut limit), fun _ _ _ => .visit (.cut limit)⟩

end Inner

end CallLint
