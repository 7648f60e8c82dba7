/-
Units that say the same with other ids and other spans. A `Correspondence` tells which ids and spans of two units stand
for the same things; expressions and declarations match when they are alike up to corresponding ids and spans, and units
match when, in addition, ids correspond one to one and only the order of the lists may differ.
-/
import CallLint.Proofs.Correspondence.Relations
import CallLint.Unit.Walk

namespace CallLint

theorem TypeId.mk_bijective : Function.Bijective TypeId.mk :=
  ⟨fun _ _ h => by simpa using h, fun ⟨n⟩ => ⟨n, rfl⟩⟩

theorem MethodId.mk_bijective : Function.Bijective MethodId.mk :=
  ⟨fun _ _ h => by simpa using h, fun ⟨n⟩ => ⟨n, rfl⟩⟩

theorem VariableId.mk_bijective : Function.Bijective VariableId.mk :=
  ⟨fun _ _ h => by simpa using h, fun ⟨n⟩ => ⟨n, rfl⟩⟩

/-- which ids and spans of two units stand for the same things -/
structure Correspondence where
  types : TypeId → TypeId → Prop
  methods : MethodId → MethodId → Prop
  vars : VariableId → VariableId → Prop
  spans : Span → Span → Prop

/-- more variables correspond, and all else is the same -/
structure Correspondence.Grows (R R' : Correspondence) : Prop where
  types : R'.types = R.types
  methods : R'.methods = R.methods
  vars : ∀ a b, R.vars a b → R'.vars a b
  spans : R'.spans = R.spans

/-! ## Expressions -/

/-- the expressions differ only in ids and spans, and those correspond -/
inductive Expr.Matches (R : Correspondence) : Expr → Expr → Prop where
  | literal (v : Literal) : Matches R (.literal v) (.literal v)
  | name (text : String) {id id' : Option VariableId} :
    Option.Rel R.vars id id' → Matches R (.name text id) (.name text id')
  | fieldAccess {e e' : Expr} (field : String) {id id' : Option VariableId} :
    Matches R e e' → Option.Rel R.vars id id' → Matches R (.fieldAccess e field id) (.fieldAccess e' field id')
  | binary (operator : String) {e e' f f' : Expr} :
    Matches R e e' → Matches R f f' → Matches R (.binary operator e f) (.binary operator e' f')
  | call (name : String) (owner : Option String) {receiver receiver' : Option Expr} {arguments arguments' : List Expr}
    {body body' : List Expr} {target target' : Option MethodId} {nameSpan nameSpan' span span' : Span} :
    Option.Rel (Matches R) receiver receiver' → List.Forall₂ (Matches R) arguments arguments' →
    List.Forall₂ (Matches R) body body' → Option.Rel R.methods target target' → R.spans nameSpan nameSpan' →
    R.spans span span' →
    Matches R (.call ⟨name, owner, receiver, arguments, body, target, nameSpan, span⟩)
      (.call ⟨name, owner, receiver', arguments', body', target', nameSpan', span'⟩)
  | other (kind : String) {es es' : List Expr} :
    List.Forall₂ (Matches R) es es' → Matches R (.other kind es) (.other kind es')

/-- the calls differ only in ids and spans, and those correspond -/
def Call.Matches (R : Correspondence) (c c' : Call Expr) : Prop :=
  Expr.Matches R (.call c) (.call c')

theorem Call.Matches.site {R : Correspondence} {c c' : Call Expr} (h : c.Matches R c') : c.site = c'.site := by
  cases h with
  | call name owner _ ha => simp [Call.site, ha.length_eq]

mutual

theorem Expr.Matches.mono {R R' : Correspondence} (hg : R.Grows R') :
    ∀ (e : Expr) {e' : Expr}, e.Matches R e' → e.Matches R' e'
  | .literal _, _, h => by
    cases h
    exact .literal _
  | .name _ _, _, h => by
    cases h with
    | name _ hid => exact .name _ (optionRel_mono hg.vars hid)
  | .fieldAccess target _ _, _, h => by
    cases h with
    | fieldAccess _ he hid => exact .fieldAccess _ (Expr.Matches.mono hg target he) (optionRel_mono hg.vars hid)
  | .binary _ left right, _, h => by
    cases h with
    | binary _ he hf => exact .binary _ (Expr.Matches.mono hg left he) (Expr.Matches.mono hg right hf)
  | .call ⟨_, _, receiver, arguments, body, _, _, _⟩, _, h => by
    cases h with
    | call _ _ hr ha hb ht hns hs =>
      exact .call _ _ (optionMatches_mono hg receiver hr) (listMatches_mono hg arguments ha)
        (listMatches_mono hg body hb) (hg.methods ▸ ht) (hg.spans ▸ hns) (hg.spans ▸ hs)
  | .other _ children, _, h => by
    cases h with
    | other _ hes => exact .other _ (listMatches_mono hg children hes)
termination_by structural e => e

theorem optionMatches_mono {R R' : Correspondence} (hg : R.Grows R') :
    ∀ (o : Option Expr) {o' : Option Expr}, Option.Rel (Expr.Matches R) o o' → Option.Rel (Expr.Matches R') o o'
  | none, _, h => by
    cases h
    exact .none
  | some e, _, h => by
    cases h with
    | some he => exact .some (Expr.Matches.mono hg e he)
termination_by structural o => o

theorem listMatches_mono {R R' : Correspondence} (hg : R.Grows R') :
    ∀ (es : List Expr) {es' : List Expr}, List.Forall₂ (Expr.Matches R) es es' → List.Forall₂ (Expr.Matches R') es es'
  | [], _, h => by
    cases h
    exact .nil
  | e :: es, _, h => by
    cases h with
    | cons he hes => exact .cons (Expr.Matches.mono hg e he) (listMatches_mono hg es hes)
termination_by structural es => es

end

/-! ## The calls in matching expressions -/

section Calls

variable {R : Correspondence}

mutual

theorem Expr.Matches.calls : ∀ (e : Expr) {e' : Expr}, e.Matches R e' → List.Forall₂ (Call.Matches R) e.calls e'.calls
  | .literal _, _, h => by
    cases h
    exact .nil
  | .name _ _, _, h => by
    cases h
    exact .nil
  | .fieldAccess target _ _, _, h => by
    cases h with
    | fieldAccess _ he _ =>
      rw [Expr.calls, Expr.calls]
      exact Expr.Matches.calls target he
  | .binary _ left right, _, h => by
    cases h with
    | binary _ he hf =>
      rw [Expr.calls, Expr.calls]
      exact List.rel_append (Expr.Matches.calls left he) (Expr.Matches.calls right hf)
  | .call ⟨_, _, receiver, arguments, body, _, _, _⟩, _, h => by
    cases h with
    | call _ _ hr ha hb ht hns hs =>
      rw [Expr.calls, callCalls, Expr.calls, callCalls]
      exact .cons (.call _ _ hr ha hb ht hns hs) (List.rel_append (List.rel_append (optionMatches_calls receiver hr)
        (listMatches_calls arguments ha)) (listMatches_calls body hb))
  | .other _ children, _, h => by
    cases h with
    | other _ hes =>
      rw [Expr.calls, Expr.calls]
      exact listMatches_calls children hes
termination_by structural e => e

theorem optionMatches_calls :
    ∀ (o : Option Expr) {o' : Option Expr}, Option.Rel (Expr.Matches R) o o' →
      List.Forall₂ (Call.Matches R) (optionCalls o) (optionCalls o')
  | none, _, h => by
    cases h
    exact .nil
  | some e, _, h => by
    cases h with
    | some he => exact Expr.Matches.calls e he
termination_by structural o => o

theorem listMatches_calls :
    ∀ (es : List Expr) {es' : List Expr}, List.Forall₂ (Expr.Matches R) es es' →
      List.Forall₂ (Call.Matches R) (listCalls es) (listCalls es')
  | [], _, h => by
    cases h
    exact .nil
  | e :: es, _, h => by
    cases h with
    | cons he hes => exact List.rel_append (Expr.Matches.calls e he) (listMatches_calls es hes)
termination_by structural es => es

end

end Calls

/-! ## Declarations -/

structure TypeDecl.Matches (R : Correspondence) (t t' : TypeDecl) : Prop where
  name : t.name = t'.name
  binaryName : t.binaryName = t'.binaryName
  kind : t.kind = t'.kind
  enclosing : Option.Rel R.types t.enclosing t'.enclosing
  superclass : t.superclass = t'.superclass
  superclassId : Option.Rel R.types t.superclassId t'.superclassId
  span : R.spans t.span t'.span

structure MethodDecl.Matches (R : Correspondence) (m m' : MethodDecl) : Prop where
  name : m.name = m'.name
  owner : R.types m.owner m'.owner
  parameterCount : m.parameterCount = m'.parameterCount
  varargs : m.varargs = m'.varargs
  isPublic : m.isPublic = m'.isPublic
  isAbstract : m.isAbstract = m'.isAbstract
  annotations : m.annotations = m'.annotations
  body : Option.Rel (List.Forall₂ (Expr.Matches R)) m.body m'.body
  nameSpan : R.spans m.nameSpan m'.nameSpan
  span : R.spans m.span m'.span

structure VariableDecl.Matches (R : Correspondence) (v v' : VariableDecl) : Prop where
  name : v.name = v'.name
  kind : v.kind = v'.kind
  declaredType : v.declaredType = v'.declaredType
  isFinal : v.isFinal = v'.isFinal
  initializer : Option.Rel (Expr.Matches R) v.initializer v'.initializer
  span : R.spans v.span v'.span

structure InitializerBlock.Matches (R : Correspondence) (b b' : InitializerBlock) : Prop where
  owner : R.types b.owner b'.owner
  body : List.Forall₂ (Expr.Matches R) b.body b'.body
  span : R.spans b.span b'.span

structure Import.Matches (R : Correspondence) (i i' : Import) : Prop where
  path : i.path = i'.path
  isStatic : i.isStatic = i'.isStatic
  onDemand : i.onDemand = i'.onDemand
  span : R.spans i.span i'.span

/-- **Units that say the same.** Ids correspond one to one, what they stand for matches, and so does all else. -/
structure CompilationUnit.Matches (R : Correspondence) (u u' : CompilationUnit) : Prop where
  path : u.path = u'.path
  package : u.package = u'.package
  imports : List.Forall₂ (Import.Matches R) u.imports u'.imports
  types : OneToOne R.types (TypeDecl.Matches R) u.typeAt? u'.typeAt?
  methods : OneToOne R.methods (MethodDecl.Matches R) u.methodAt? u'.methodAt?
  vars : OneToOne R.vars (VariableDecl.Matches R) u.variableAt? u'.variableAt?
  blocks : PermRel (InitializerBlock.Matches R) u.blocks u'.blocks
  hasParseErrors : u.hasParseErrors = u'.hasParseErrors

end CallLint
