/-
Sound expressions and states. An expression is sound when every name, field access and call in it that is bound is bound
to a declaration of that name, of the right kind (`Expr.Sound`); a state, when its scopes hold sound ids
(`LowerState.Sound`). Variables are only added while bodies are lowered, with their names and kinds fixed, so what is sound
once stays so (`Expr.Sound.mono`). What names mean where a state is sound are declarations that they can mean.
-/
import CallLint.Proofs.Laws.Actions

namespace CallLint

/-! ## Variables -/

/-- the id is that of a variable with the name -/
def VariableNamed (vs : Array VariableDecl) (name : String) (id : VariableId) : Prop :=
  ∃ v, vs[id.index]? = some v ∧ v.name = name

theorem VariableNamed.mono {vs vs' : Array VariableDecl} {name : String} {id : VariableId} (h : VariableNamed vs name id)
    (hk : KeepsVariables vs vs') : VariableNamed vs' name id := by
  obtain ⟨v, hv, hname⟩ := h
  obtain ⟨v', hv', hname', -⟩ := hk id.index v hv
  exact ⟨v', hv', hname'.trans hname⟩

theorem FieldNamed.mono {vs vs' : Array VariableDecl} {name : String} {id : VariableId} (h : FieldNamed vs name id)
    (hk : KeepsVariables vs vs') : FieldNamed vs' name id := by
  obtain ⟨v, hv, hkind, hname⟩ := h
  obtain ⟨v', hv', hname', hkind'⟩ := hk id.index v hv
  exact ⟨v', hv', hkind'.trans hkind, hname'.trans hname⟩

theorem FieldNamed.variable {vs : Array VariableDecl} {name : String} {id : VariableId} (h : FieldNamed vs name id) :
    VariableNamed vs name id := by
  obtain ⟨v, hv, -, hname⟩ := h
  exact ⟨v, hv, hname⟩

/-! ## Expressions -/

/-- every bound name, field access and call in the expression refers to a declaration that it can mean -/
inductive Expr.Sound (vs : Array VariableDecl) (ms : Array MethodDecl) : Expr → Prop
  | literal (value : Literal) : Sound vs ms (.literal value)
  | name {name : String} {binding : Option VariableId} :
    (∀ id, binding = some id → VariableNamed vs name id) → Sound vs ms (.name name binding)
  | fieldAccess {target : Expr} {field : String} {binding : Option VariableId} :
    Sound vs ms target → (∀ id, binding = some id → FieldNamed vs field id) →
    Sound vs ms (.fieldAccess target field binding)
  | binary {operator : String} {left right : Expr} :
    Sound vs ms left → Sound vs ms right → Sound vs ms (.binary operator left right)
  | call {c : Call Expr} :
    (∀ e, c.receiver = some e → Sound vs ms e) → (∀ e ∈ c.arguments, Sound vs ms e) →
    (∀ e ∈ c.anonymousBody, Sound vs ms e) →
    (∀ id, c.target = some id → MethodFor ms c.name c.arguments.length id) → Sound vs ms (.call c)
  | other {kind : String} {children : List Expr} :
    (∀ e ∈ children, Sound vs ms e) → Sound vs ms (.other kind children)

/-- sound expressions stay sound while variables and methods keep what names see of them -/
theorem Expr.Sound.mono {vs vs' : Array VariableDecl} {ms ms' : Array MethodDecl} {e : Expr} (h : e.Sound vs ms)
    (hv : KeepsVariables vs vs')
    (hm : ∀ name arguments id, MethodFor ms name arguments id → MethodFor ms' name arguments id) : e.Sound vs' ms' := by
  induction h with
  | literal value => exact .literal value
  | name hb => exact .name fun id hid => (hb id hid).mono hv
  | fieldAccess _ hb ih => exact .fieldAccess ih fun id hid => (hb id hid).mono hv
  | binary _ _ ihl ihr => exact .binary ihl ihr
  | call _ _ _ ht ihr iha ihb => exact .call ihr iha ihb fun id hid => hm _ _ id (ht id hid)
  | other _ ih => exact .other ih

/-- what is bound stays bound when variables are added -/
theorem Expr.Sound.later {vs vs' : Array VariableDecl} {ms : Array MethodDecl} {e : Expr} (h : e.Sound vs ms)
    (hv : KeepsVariables vs vs') : e.Sound vs' ms :=
  h.mono hv fun _ _ _ => id

/-! ## States -/

/-- scopes hold ids of variables that have the names, and no variable has lost what fields are known for -/
structure LowerState.Sound (d : Declarations) (st : LowerState) : Prop where
  fields : KeepsVariables d.fields st.variableDecls
  scopes : ∀ scope ∈ st.scopes, ∀ p ∈ scope, VariableNamed st.variableDecls p.1 p.2
  initializers : ∀ v ∈ st.variableDecls, ∀ e, v.initializer = some e → e.Sound st.variableDecls d.methods

namespace LowerState

variable {d : Declarations} {st : LowerState}

theorem Sound.local? (h : st.Sound d) {name : String} {id : VariableId} (hl : st.local? name = some id) :
    VariableNamed st.variableDecls name id := by
  obtain ⟨scope, hscope, hid⟩ := List.exists_of_findSome?_eq_some hl
  exact h.scopes scope hscope _ (Declarations.mem_of_lookup hid)

/-- a new variable is found by its name from here on -/
theorem Sound.declare (h : st.Sound d) {v : VariableDecl}
    (hv : ∀ e, v.initializer = some e → e.Sound st.variableDecls d.methods) : (st.declare v).Sound d := by
  have keeps := KeepsVariables.push st.variableDecls v
  have new : VariableNamed (st.variableDecls.push v) v.name ⟨st.variableDecls.size⟩ := ⟨v, by simp, rfl⟩
  have old {scope : Scope} (hs : scope ∈ st.scopes) :
      ∀ p ∈ scope, VariableNamed (st.variableDecls.push v) p.1 p.2 := fun p hp => (h.scopes scope hs p hp).mono keeps
  have initializers : ∀ u ∈ st.variableDecls.push v, ∀ e, u.initializer = some e →
      e.Sound (st.variableDecls.push v) d.methods := by
    intro u hu e he
    rcases Array.mem_push.1 hu with hu | rfl
    · exact (h.initializers u hu e he).later keeps
    · exact (hv e he).later keeps
  obtain ⟨vs, scopes⟩ := st
  cases scopes with
  | nil =>
    refine ⟨h.fields.trans keeps, ?_, initializers⟩
    intro scope hs p hp
    obtain rfl := List.mem_singleton.1 hs
    obtain rfl := List.mem_singleton.1 hp
    exact new
  | cons scope outer =>
    refine ⟨h.fields.trans keeps, ?_, initializers⟩
    intro scope' hs p hp
    rcases List.mem_cons.1 hs with rfl | hs
    · rcases List.mem_cons.1 hp with rfl | hp
      · exact new
      · exact old List.mem_cons_self p hp
    · exact old (List.mem_cons_of_mem _ hs) p hp

theorem Sound.opened (h : st.Sound d) : LowerState.Sound d { st with scopes := [] :: st.scopes } := by
  refine ⟨h.fields, fun scope hs => ?_, h.initializers⟩
  rcases List.mem_cons.1 hs with rfl | hs
  · simp
  · exact h.scopes scope hs

theorem Sound.closed (h : st.Sound d) (i : Nat) : LowerState.Sound d { st with scopes := st.scopes.drop i } :=
  ⟨h.fields, fun scope hs => h.scopes scope (List.mem_of_mem_drop hs), h.initializers⟩

/-- a variable gets its initializer later than its name -/
theorem Sound.initialized (h : st.Sound d) (i : Nat) {init : Option Expr}
    (he : ∀ e, init = some e → e.Sound st.variableDecls d.methods) :
    LowerState.Sound d { st with variableDecls := st.variableDecls.modify i fun v => { v with initializer := init } } := by
  let vs := st.variableDecls.modify i fun v => { v with initializer := init }
  have keeps : KeepsVariables st.variableDecls vs := .modify st.variableDecls i init
  have initializers : ∀ v ∈ vs, ∀ e, v.initializer = some e → e.Sound vs d.methods := by
    refine forall_mem_modify h.initializers (fun v hv e he => (hv e he).later keeps) ?_
    exact fun _ _ e hinit => (he e hinit).later keeps
  exact ⟨h.fields.trans keeps, fun scope hs p hp => (h.scopes scope hs p hp).mono keeps, initializers⟩

end LowerState

/-! ## Names at a place -/

namespace LowerContext

variable {c : LowerContext} {st : LowerState}

theorem lookup?_named (hd : c.declarations.Sound) (hst : st.Sound c.declarations) {name : String} {id : VariableId}
    (h : c.lookup? st name = some id) : VariableNamed st.variableDecls name id := by
  rcases Option.or_eq_some_iff.1 h with hlocal | ⟨-, hfield⟩
  · exact hst.local? hlocal
  · obtain ⟨t, -, ht⟩ := List.exists_of_findSome?_eq_some hfield
    exact ((hd.fieldIn? ht).mono hst.fields).variable

theorem fieldBinding?_named (hd : c.declarations.Sound) (hst : st.Sound c.declarations) {object : Node} {field : String}
    {id : VariableId} (h : c.fieldBinding? st object field = some id) : FieldNamed st.variableDecls field id := by
  refine FieldNamed.mono ?_ hst.fields
  have ofType : fieldBinding?.ofType c st object field = some id → FieldNamed c.declarations.fields field id := by
    intro h
    obtain ⟨t, -, ht⟩ := Option.bind_eq_some_iff.1 h
    exact hd.fieldIn? ht
  unfold fieldBinding? at h
  dsimp only at h
  split at h
  · exact hd.fieldIn? h
  · obtain ⟨t, -, ht⟩ := Option.bind_eq_some_iff.1 h
    exact hd.fieldIn? ht
  · exact ofType h
  · exact ofType h
  · cases h

theorem unqualified_for {name : String} {arguments : Nat} {id : MethodId}
    (h : (c.unqualified name arguments).2 = some id) : MethodFor c.declarations.methods name arguments id := by
  unfold unqualified at h
  dsimp only at h
  split at h
  · rename_i t m hfound
    obtain ⟨u, -, hu⟩ := List.exists_of_findSome?_eq_some hfound
    cases h
    exact Declarations.methodIn?_for hu
  · cases h

theorem qualified_for {object : Node} {name : String} {arguments : Nat} {id : MethodId}
    (h : (c.qualified st object name arguments).2 = some id) : MethodFor c.declarations.methods name arguments id := by
  obtain ⟨⟨t, m⟩, hfound, rfl⟩ := Option.map_eq_some_iff.1 h
  obtain ⟨u, -, hu⟩ := Option.bind_eq_some_iff.1 hfound
  exact Declarations.methodIn?_for hu

theorem constructor?_for {type : Option TypeId} {arguments : Nat} {id : MethodId}
    (h : c.constructor? type arguments = some id) : MethodFor c.declarations.methods constructorName arguments id := by
  obtain ⟨t, -, ht⟩ := Option.bind_eq_some_iff.1 h
  exact Declarations.ownMethod?_for ht

end LowerContext

/-! ## Actions -/

namespace Lower

/-- Started in a sound state after the variables `vs`, the action stops in a sound state that keeps all variables, and its
result has the property there; or it stops with a fault. -/
def Resolves {α : Type} (d : Declarations) (vs : Array VariableDecl) (action : Lower α)
    (P : Array VariableDecl → α → Prop) : Prop :=
  ∀ st, st.Sound d → KeepsVariables vs st.variableDecls →
    Safe True (fun r => r.2.Sound d ∧ KeepsVariables st.variableDecls r.2.variableDecls ∧ P r.2.variableDecls r.1)
      (action st)

end Lower

end CallLint
