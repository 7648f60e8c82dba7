/-
Lowering alike nodes gives matching expressions. At each level of a body, what two alike nodes leave at alike places
matches (`Inner.Pairs`): one lemma for each construct goes from one level to the level around it, and the last level
leaves nothing, or opaque expressions of the nodes' kinds.
-/
import CallLint.Proofs.Correspondence.Actions

namespace CallLint

open Lower

section Code

/-- the expressions match when `m` local variables correspond -/
abbrev ExprAt (R : Correspondence) (vars vars' : Array VariableDecl) (m : Nat) : Expr → Expr → Prop :=
  Expr.Matches (R.locals vars.size vars'.size m)

/-- the lists of expressions match when `m` local variables correspond -/
abbrev CodeAt (R : Correspondence) (vars vars' : Array VariableDecl) (m : Nat) : List Expr → List Expr → Prop :=
  List.Forall₂ (ExprAt R vars vars' m)

variable {R : Correspondence} {vars vars' : Array VariableDecl} {m k : Nat}

theorem ExprAt.mono (h : m ≤ k) {e e' : Expr} (he : ExprAt R vars vars' m e e') : ExprAt R vars vars' k e e' :=
  Expr.Matches.mono (R.locals_grows _ _ h) e he

theorem CodeAt.mono (h : m ≤ k) {es es' : List Expr} (hes : CodeAt R vars vars' m es es') :
    CodeAt R vars vars' k es es' :=
  listMatches_mono (R.locals_grows _ _ h) es hes

theorem CodeAt.flatten {ess ess' : List (List Expr)} (h : List.Forall₂ (CodeAt R vars vars' m) ess ess') :
    CodeAt R vars vars' m ess.flatten ess'.flatten := by
  induction h with
  | nil => exact .nil
  | cons hes _ ih => exact List.rel_append hes ih

theorem CodeAt.toList {o o' : Option Expr} (h : Option.Rel (ExprAt R vars vars' m) o o') :
    CodeAt R vars vars' m o.toList o'.toList := by
  cases h with
  | some he => exact .cons he .nil
  | none => exact .nil

/-- a created object tells the same type -/
theorem ExprAt.created {o o' : Option Expr} (h : Option.Rel (ExprAt R vars vars' m) o o') :
    ((o.bind Expr.call?).filter (·.isConstructor)).bind (·.owner) =
      ((o'.bind Expr.call?).filter (·.isConstructor)).bind (·.owner) := by
  cases h with
  | none => rfl
  | some he =>
    cases he with
    | call name owner =>
      simp only [Option.bind_some, Expr.call?, Call.isConstructor, Option.filter_some]
      split_ifs <;> rfl
    | _ => rfl

end Code

/-- alike nodes at alike places leave matching expressions -/
structure Inner.Pairs (inner : Inner) (R : Correspondence) (vars vars' : Array VariableDecl) : Prop where
  splice : ∀ (m : Nat) {c c' : LowerContext} {n n' : Node}, c.Alike R c' → n.Alike R.spans c.source c'.source n' →
    Paired R vars vars' m (inner.splice c n) (inner.splice c' n') (CodeAt R vars vars')
  expression : ∀ (m : Nat) {c c' : LowerContext} {n n' : Node}, c.Alike R c' → n.Alike R.spans c.source c'.source n' →
    Paired R vars vars' m (inner.expression c n) (inner.expression c' n') (ExprAt R vars vars')

namespace Inner.Pairs

variable {inner : Inner} {R : Correspondence} {vars vars' : Array VariableDecl} {c c' : LowerContext} {n n' : Node}

section Step

variable (h : inner.Pairs R vars vars') (m : Nat) (hc : c.Alike R c') (hn : n.Alike R.spans c.source c'.source n')
include h hc hn

theorem children : Paired R vars vars' m (inner.children c n) (inner.children c' n') (CodeAt R vars vars') :=
  (Paired.mapM CodeAt.mono hn.namedChildren fun k _ _ _ hm => h.splice k hc hm).bind fun _ _ _ _ hess =>
    .pure (CodeAt.flatten hess)

theorem child (r : Role) :
    Paired R vars vars' m (inner.child c n r) (inner.child c' n' r) (CodeAt R vars vars') := by
  rw [Inner.child, Inner.child]
  rcases optionRel_cases (hn.child? r) with ⟨hp, hp'⟩ | ⟨p, p', hp, hp', hpp⟩
  · rw [hp, hp']
    exact .pure .nil
  · rw [hp, hp']
    exact h.splice m hc hpp

theorem opaqueNode :
    Paired R vars vars' m (inner.opaqueNode c n) (inner.opaqueNode c' n') (ExprAt R vars vars') := by
  rw [Inner.opaqueNode, Inner.opaqueNode, hn.kind]
  exact (h.children m hc hn).bind fun _ _ _ _ hes => .pure (.other _ hes)

theorem literal (value : Option Literal) :
    Paired R vars vars' m (inner.literal c n value) (inner.literal c' n' value) (ExprAt R vars vars') := by
  cases value with
  | none => exact h.opaqueNode m hc hn
  | some v => exact .pure (.literal v)

/-! ## Calls -/

theorem arguments :
    Paired R vars vars' m (inner.arguments c n) (inner.arguments c' n') (CodeAt R vars vars') := by
  rw [Inner.arguments, Inner.arguments]
  rcases optionRel_cases (hn.child? .arguments) with ⟨hp, hp'⟩ | ⟨p, p', hp, hp', hpp⟩
  · rw [hp, hp']
    exact .pure .nil
  · rw [hp, hp']
    exact .mapM ExprAt.mono hpp.namedChildren fun k _ _ _ hm => h.expression k hc hm

omit h hc in
/-- where the named part of a call stands, or the call itself -/
theorem span_getD {o o' : Option Node} (ho : Option.Rel (Node.Alike R.spans c.source c'.source) o o') :
    R.spans (c.spanOf (o.getD n)) (c'.spanOf (o'.getD n')) := by
  cases ho with
  | some ho => exact ho.span
  | none => exact hn.span

theorem methodInvocation (ht : R.Typed vars vars') :
    Paired R vars vars' m (inner.methodInvocation c n) (inner.methodInvocation c' n') fun k call call' =>
      ExprAt R vars vars' k (.call call) (.call call') := by
  have name : ((n.child? .name).map c.textOf).getD "" = ((n'.child? .name).map c'.textOf).getD "" :=
    congrArg (·.getD "") (hn.childText (r := .name) rfl)
  rw [Inner.methodInvocation, Inner.methodInvocation]
  dsimp only
  rw [name]
  refine (h.arguments m hc hn).bind fun k _ as as' has => .get fun st st' hst => ?_
  have places := hc.grow (R.grows_locals vars.size vars'.size k)
  have states := hst.alike ht
  rw [has.length_eq]
  rcases optionRel_cases (hn.child? .object) with ⟨ho, ho'⟩ | ⟨o, o', ho, ho', hoo⟩
  · obtain ⟨owner, target⟩ := places.unqualified (((n'.child? .name).map c'.textOf).getD "") as'.length
    simp only [ho, ho', owner]
    exact .bind (P := fun _ => Option.Rel (ExprAt R vars vars' k)) (.pure .none) fun j hj _ _ hr =>
      .pure (.call _ _ (optionRel_mono (fun _ _ => ExprAt.mono hj) hr) (CodeAt.mono hj has) .nil target
        (span_getD hn (hn.child? .name)) hn.span)
  · obtain ⟨owner, target⟩ := places.qualified states hoo (((n'.child? .name).map c'.textOf).getD "") as'.length
    simp only [ho, ho', owner]
    refine Paired.bind (P := fun j => Option.Rel (ExprAt R vars vars' j))
      ((h.expression k hc hoo).map fun _ _ _ _ he => .some he) fun j hj _ _ hr => ?_
    exact .pure (.call _ _ hr (CodeAt.mono hj has) .nil target (span_getD hn (hn.child? .name)) hn.span)

theorem objectCreation :
    Paired R vars vars' m (inner.objectCreation c n) (inner.objectCreation c' n') fun k call call' =>
      ExprAt R vars vars' k (.call call) (.call call') := by
  rw [Inner.objectCreation, Inner.objectCreation]
  dsimp only
  rw [hc.declaredType? hn]
  refine (h.arguments m hc hn).bind fun k _ as as' has => ?_
  have type : Option.Rel R.types ((c'.declaredType? n').bind c.declarations.typeNamed?)
      ((c'.declaredType? n').bind c'.declarations.typeNamed?) := by
    cases c'.declaredType? n' with
    | none => exact .none
    | some name => exact hc.agree.typeNamed name
  have target := hc.constructor? type as'.length
  rw [has.length_eq]
  have call {j : Nat} (hj : k ≤ j) {body body' : List Expr} (hbody : CodeAt R vars vars' j body body') :=
    Expr.Matches.call (R := R.locals vars.size vars'.size j) constructorName (c'.declaredType? n') .none
      (CodeAt.mono hj has) hbody target (span_getD hn (hn.child? .type)) hn.span
  rcases optionRel_cases (hn.childOfKind? (k := .classBody) rfl) with ⟨hb, hb'⟩ | ⟨b, b', hb, hb', hbb⟩
  · simp only [hb, hb']
    exact .bind (P := CodeAt R vars vars') (.pure .nil) fun j hj _ _ hbody => .pure (call hj hbody)
  · simp only [hb, hb']
    exact .bind (.inScope (h.children k hc hbb)) fun j hj _ _ hbody => .pure (call hj hbody)

theorem constructorInvocation :
    Paired R vars vars' m (inner.constructorInvocation c n) (inner.constructorInvocation c' n') fun k call call' =>
      ExprAt R vars vars' k (.call call) (.call call') := by
  rw [Inner.constructorInvocation, Inner.constructorInvocation]
  dsimp only
  have kind : (n.child? .constructor).map (·.kind) = (n'.child? .constructor).map (·.kind) :=
    optionRel_eq.1 (optionRel_map (fun _ _ hk => hk.kind) (hn.child? .constructor))
  rw [kind]
  obtain ⟨owner, id⟩ := hc.constructed ((n'.child? .constructor).map (·.kind))
  refine (h.arguments m hc hn).bind fun k _ as as' has => ?_
  rw [Lower.placed_eq, Lower.placed_eq, has.length_eq, owner]
  exact .pure (.call _ _ .none has .nil (hc.constructor? id as'.length) (span_getD hn (hn.child? .constructor)) hn.span)

/-! ## Other expressions -/

theorem fieldAccess (ht : R.Typed vars vars') :
    Paired R vars vars' m (inner.fieldAccess c n) (inner.fieldAccess c' n') (ExprAt R vars vars') := by
  have field := hn.childText (r := .field) rfl
  rw [Inner.fieldAccess, Inner.fieldAccess]
  rcases optionRel_cases (hn.child? .object) with ⟨ho, ho'⟩ | ⟨o, o', ho, ho', hoo⟩
  · rw [ho, ho']
    exact h.opaqueNode m hc hn
  · rcases optionRel_cases (hn.child? .field) with ⟨hf, hf'⟩ | ⟨f, f', hf, hf', -⟩
    · rw [ho, ho', hf, hf']
      exact h.opaqueNode m hc hn
    · rw [hf, hf', Option.map_some, Option.map_some, Option.some.injEq] at field
      rw [ho, ho', hf, hf']
      dsimp only
      rw [show c.textOf f = c'.textOf f' from field]
      refine .get fun st st' hst => (h.expression m hc hoo).bind fun k hk e e' he => .pure (.fieldAccess _ he ?_)
      have binding := (hc.grow (R.grows_locals vars.size vars'.size m)).fieldBinding? (hst.alike ht) hoo (c'.textOf f')
      exact optionRel_mono (R.locals_grows _ _ hk).vars binding

theorem binary : Paired R vars vars' m (inner.binary c n) (inner.binary c' n') (ExprAt R vars vars') := by
  have text := hn.childText (r := .operator) rfl
  rw [Inner.binary, Inner.binary]
  rcases optionRel_cases (hn.child? .left) with ⟨hl, hl'⟩ | ⟨l, l', hl, hl', hll⟩
  · rw [hl, hl']
    exact h.opaqueNode m hc hn
  · rcases optionRel_cases (hn.child? .operator) with ⟨ho, ho'⟩ | ⟨o, o', ho, ho', -⟩
    · rw [hl, hl', ho, ho']
      exact h.opaqueNode m hc hn
    · rcases optionRel_cases (hn.child? .right) with ⟨hr, hr'⟩ | ⟨r, r', hr, hr', hrr⟩
      · rw [hl, hl', ho, ho', hr, hr']
        exact h.opaqueNode m hc hn
      · rw [ho, ho', Option.map_some, Option.map_some, Option.some.injEq] at text
        rw [hl, hl', ho, ho', hr, hr']
        dsimp only
        rw [show c.textOf o = c'.textOf o' from text]
        refine (h.expression m hc hll).bind fun k _ e e' he => (h.expression k hc hrr).bind fun j hj f f' hf => ?_
        exact .pure (.binary _ (ExprAt.mono hj he) hf)

omit h hc in
/-- the parameters of a lambda whose types are not stated -/
theorem declareNames (hk : n.kind = .inferredParameters) : Paired R vars vars' m
    (n.namedChildren.forM fun p => declareUntyped c p p) (n'.namedChildren.forM fun p => declareUntyped c' p p)
      fun _ _ _ => True :=
  .forM (forall₂_and_map hn.namedChildren (hn.reads.inferred hk)) fun _ _ _ _ hp => .declareUntyped hp.2 hp.1

theorem lambda : Paired R vars vars' m (inner.lambda c n) (inner.lambda c' n') (ExprAt R vars vars') := by
  rw [Inner.lambda, Inner.lambda]
  have body (k : Nat) : Paired R vars vars' k
      (do return Expr.other n.kind.render (← inner.child c n .body))
      (do return Expr.other n'.kind.render (← inner.child c' n' .body)) (ExprAt R vars vars') := by
    rw [hn.kind]
    exact (h.child k hc hn .body).bind fun _ _ _ _ hes => .pure (.other _ hes)
  refine Paired.inScope ?_
  rcases optionRel_cases (hn.child? .parameters) with ⟨hp, hp'⟩ | ⟨p, p', hp, hp', hpp⟩
  · simp only [hp, hp']
    exact body m
  · have text (hk : p'.kind = .identifier) : c.textOf p = c'.textOf p' :=
      hpp.reads.text (Or.inl (by rw [hpp.kind, hk]; rfl))
    simp only [hp, hp', hpp.kind]
    split
    · rename_i hk
      exact (Paired.declareUntyped (text hk) hpp).bind fun k _ _ _ _ => body k
    · rename_i hk
      exact (declareNames m hpp (by rw [hpp.kind, hk])).bind fun k _ _ _ _ => body k
    · exact (Paired.declareParameters hc hpp).bind fun k _ _ _ _ => body k

theorem ofExpression (ht : R.Typed vars vars') :
    Paired R vars vars' m (inner.ofExpression c n) (inner.ofExpression c' n') (ExprAt R vars vars') := by
  have text (hk : n'.kind.isRead = true) : c.textOf n = c'.textOf n' :=
    hn.reads.text (Or.inl (by rw [hn.kind, hk]))
  rw [Inner.ofExpression, Inner.ofExpression, hn.kind]
  split <;> rename_i hk
  · have named := hn.namedChildren
    generalize n.namedChildren = ps, n'.namedChildren = ps' at named ⊢
    cases named with
    | nil => exact .pure (.other _ .nil)
    | cons hp _ => exact h.expression m hc hp
  · rw [show Literal.ofStringText? (c.textOf n) = Literal.ofStringText? (c'.textOf n') from
      hn.reads.string (by rw [hn.kind, hk])]
    exact .lift _ fun value => h.literal m hc hn value
  · rw [text (by rw [hk]; rfl)]
    exact h.literal m hc hn _
  · rw [text (by rw [hk]; rfl)]
    exact h.literal m hc hn _
  · rw [text (by rw [hk]; rfl)]
    exact h.literal m hc hn _
  · rw [text (by rw [hk]; rfl)]
    exact h.literal m hc hn _
  · rw [text (by rw [hk]; rfl)]
    exact h.literal m hc hn _
  · rw [text (by rw [hk]; rfl)]
    exact .pure (.literal _)
  · rw [text (by rw [hk]; rfl)]
    exact .pure (.literal _)
  · exact .pure (.literal _)
  · exact .pure (.literal _)
  · rw [text (by rw [hk]; rfl)]
    exact .get fun st st' hst => .pure (.name _ ((hc.grow (R.grows_locals _ _ m)).lookup? (hst.alike ht) _))
  · exact h.fieldAccess m hc hn ht
  · exact h.binary m hc hn
  · exact (h.methodInvocation m hc hn ht).map fun _ _ _ _ hcall => hcall
  · exact (h.objectCreation m hc hn).map fun _ _ _ _ hcall => hcall
  · exact h.lambda m hc hn
  · exact h.opaqueNode m hc hn

/-! ## Statements -/

theorem declarator (isFinal : Bool) (type : Option String) :
    Paired R vars vars' m (inner.declarator c isFinal type n) (inner.declarator c' isFinal type n')
      (CodeAt R vars vars') := by
  have text := hn.childText (r := .name) rfl
  rw [Inner.declarator, Inner.declarator]
  rcases optionRel_cases (hn.child? .name) with ⟨hp, hp'⟩ | ⟨p, p', hp, hp', -⟩
  · rw [hp, hp']
    exact .pure .nil
  · rw [hp, hp', Option.map_some, Option.map_some, Option.some.injEq] at text
    rw [hp, hp']
    dsimp only
    rw [show c.textOf p = c'.textOf p' from text]
    -- the variable is declared after its initializer is lowered
    have declared (k : Nat) {o o' : Option Expr} (ho : Option.Rel (ExprAt R vars vars' k) o o') :
        Paired R vars vars' k (do
          declare ⟨c'.textOf p', .local, type.or (((o.bind Expr.call?).filter (·.isConstructor)).bind (·.owner)),
            isFinal, o, c.spanOf n⟩
          return o.toList) (do
          declare ⟨c'.textOf p', .local, type.or (((o'.bind Expr.call?).filter (·.isConstructor)).bind (·.owner)),
            isFinal, o', c'.spanOf n'⟩
          return o'.toList) (CodeAt R vars vars') := by
      rw [ExprAt.created ho]
      refine (Paired.declare ho hn.span).bind fun j hj _ _ _ => .pure ?_
      exact CodeAt.mono hj (CodeAt.toList ho)
    rcases optionRel_cases (hn.child? .value) with ⟨hv, hv'⟩ | ⟨v, v', hv, hv', hvv⟩
    · rw [hv, hv']
      exact .bind (P := fun k => Option.Rel (ExprAt R vars vars' k)) (.pure .none) fun k _ _ _ ho => declared k ho
    · rw [hv, hv']
      exact .bind (P := fun k => Option.Rel (ExprAt R vars vars' k))
        ((h.expression m hc hvv).map fun _ _ _ _ he => .some he) fun k _ _ _ ho => declared k ho

theorem localDeclaration :
    Paired R vars vars' m (inner.localDeclaration c n) (inner.localDeclaration c' n') (CodeAt R vars vars') := by
  rw [Inner.localDeclaration, Inner.localDeclaration, hn.modifiersOf, hc.declaredType? hn]
  exact (Paired.mapM CodeAt.mono (hn.childrenIn .declarator) fun k _ _ _ hp => h.declarator k hc hp _ _).bind
    fun _ _ _ _ hess => .pure (CodeAt.flatten hess)

theorem enhancedFor :
    Paired R vars vars' m (inner.enhancedFor c n) (inner.enhancedFor c' n') (CodeAt R vars vars') := by
  have text := hn.childText (r := .name) rfl
  rw [Inner.enhancedFor, Inner.enhancedFor, hc.declaredType? hn]
  refine .inScope ((h.child m hc hn .value).bind fun k _ es es' hes => ?_)
  have rest (j : Nat) (hj : k ≤ j) : Paired R vars vars' j (do return es ++ (← inner.child c n .body))
      (do return es' ++ (← inner.child c' n' .body)) (CodeAt R vars vars') :=
    (h.child j hc hn .body).bind fun i hi _ _ hfs => .pure (List.rel_append (CodeAt.mono (hj.trans hi) hes) hfs)
  rcases optionRel_cases (hn.child? .name) with ⟨hp, hp'⟩ | ⟨p, p', hp, hp', -⟩
  · simp only [hp, hp']
    exact rest k le_rfl
  · rw [hp, hp', Option.map_some, Option.map_some, Option.some.injEq] at text
    simp only [hp, hp']
    rw [show c.textOf p = c'.textOf p' from text]
    exact (Paired.declare .none hn.span).bind fun j hj _ _ _ => rest j hj

theorem resource : Paired R vars vars' m (inner.resource c n) (inner.resource c' n') (CodeAt R vars vars') := by
  have text := hn.childText (r := .name) rfl
  rw [Inner.resource, Inner.resource]
  rcases optionRel_cases (hn.child? .name) with ⟨hp, hp'⟩ | ⟨p, p', hp, hp', -⟩
  · rw [hp, hp']
    exact h.children m hc hn
  · rcases optionRel_cases (hn.child? .value) with ⟨hv, hv'⟩ | ⟨v, v', hv, hv', hvv⟩
    · rw [hp, hp', hv, hv']
      exact h.children m hc hn
    · rw [hp, hp', Option.map_some, Option.map_some, Option.some.injEq] at text
      rw [hp, hp', hv, hv']
      dsimp only
      rw [show c.textOf p = c'.textOf p' from text, hc.declaredType? hn]
      refine (h.expression m hc hvv).bind fun k _ e e' he => ?_
      refine (Paired.declare (.some he) hn.span).bind fun j hj _ _ _ => .pure ?_
      exact .cons (ExprAt.mono hj he) .nil

theorem localMethod : Paired R vars vars' m (inner.localMethod c n) (inner.localMethod c' n') (CodeAt R vars vars') := by
  rw [Inner.localMethod, Inner.localMethod]
  refine Paired.inScope ?_
  rcases optionRel_cases (hn.child? .parameters) with ⟨hp, hp'⟩ | ⟨p, p', hp, hp', hpp⟩
  · simp only [hp, hp']
    exact h.child m hc hn .body
  · simp only [hp, hp']
    exact (Paired.declareParameters hc hpp).bind fun k _ _ _ _ => h.child k hc hn .body

theorem localType : Paired R vars vars' m (inner.localType c n) (inner.localType c' n') (CodeAt R vars vars') := by
  rw [Inner.localType, Inner.localType]
  rcases optionRel_cases (hn.child? .body) with ⟨hp, hp'⟩ | ⟨p, p', hp, hp', hpp⟩
  · rw [hp, hp']
    exact .pure .nil
  · rw [hp, hp']
    have places : LowerContext.Alike R { c with inLocalType := true } { c' with inLocalType := true } :=
      ⟨hc.agree, hc.owner, rfl⟩
    exact .inScope (h.children m places hpp)

theorem ofStatement :
    Paired R vars vars' m (inner.ofStatement c n) (inner.ofStatement c' n') (CodeAt R vars vars') := by
  have grouped := Paired.inScope (h.children m hc hn)
  have text := hn.childText (r := .name) rfl
  rw [Inner.ofStatement, Inner.ofStatement, hn.kind]
  split
  case h_13 | h_14 => exact h.localDeclaration m hc hn
  case h_15 => exact h.enhancedFor m hc hn
  case h_16 =>
    rcases optionRel_cases (hn.child? .name) with ⟨hp, hp'⟩ | ⟨p, p', hp, hp', -⟩
    · rw [hp, hp']
      exact .pure .nil
    · rw [hp, hp', Option.map_some, Option.map_some, Option.some.injEq] at text
      rw [hp, hp']
      exact (Paired.declareUntyped text hn).bind fun _ _ _ _ _ => .pure .nil
  case h_17 => exact h.resource m hc hn
  case h_18 | h_19 => exact h.localMethod m hc hn
  case h_20 => exact (h.constructorInvocation m hc hn).bind fun _ _ _ _ hcall => .pure (.cons hcall .nil)
  case h_21 =>
    split_ifs
    · exact h.localType m hc hn
    · exact (h.expression m hc hn).bind fun _ _ _ _ he => .pure (.cons he .nil)
    · exact h.children m hc hn
  all_goals first | exact .pure .nil | exact grouped

end Step

/-! ## Levels -/

/-- one level more -/
theorem next (h : inner.Pairs R vars vars') (ht : R.Typed vars vars') :
    Inner.Pairs ⟨inner.ofStatement, inner.ofExpression⟩ R vars vars' where
  splice m _ _ _ _ hc hn := h.ofStatement m hc hn
  expression m _ _ _ _ hc hn := h.ofExpression m hc hn ht

end Inner.Pairs

/-- **Alike nodes are lowered to matching expressions.** -/
theorem Inner.ofLevels_pairs {R : Correspondence} {vars vars' : Array VariableDecl} (ht : R.Typed vars vars')
    (levels : Nat) : (Inner.ofLevels levels).Pairs R vars vars' := by
  induction levels with
  | zero =>
    refine ⟨fun m _ _ _ _ _ _ => .pure .nil, fun m _ _ n n' _ hn => ?_⟩
    rw [Inner.ofLevels]
    dsimp only
    rw [hn.kind]
    exact .pure (.other _ .nil)
  | succ levels ih => exact ih.next ht

end CallLint
