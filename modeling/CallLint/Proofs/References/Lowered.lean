/-
Lowering binds soundly. That states and expressions are sound is a law of lowering (`Declarations.Sound.law`): what a
name, a field access or a call is bound to is looked up in the state in which it stands, and later states keep it. So at
each level of a body a node leaves sound expressions, and scopes stay sound (`Inner.ofLevels_resolves`).
-/
import CallLint.Proofs.Laws.Levels
import CallLint.Proofs.References.Resolved

namespace CallLint

/-- all expressions of a list are sound -/
def AllSound (vs : Array VariableDecl) (ms : Array MethodDecl) (es : List Expr) : Prop :=
  ∀ e ∈ es, e.Sound vs ms

/-- the nodes inside a node are lowered to sound expressions, from sound states to sound states -/
structure Inner.Resolves (inner : Inner) (d : Declarations) : Prop where
  splice : ∀ (c : LowerContext) (n : Node) (vs : Array VariableDecl), c.declarations = d →
    Lower.Resolves d vs (inner.splice c n) fun ws es => AllSound ws d.methods es
  expression : ∀ (c : LowerContext) (n : Node) (vs : Array VariableDecl), c.declarations = d →
    Lower.Resolves d vs (inner.expression c n) fun ws e => e.Sound ws d.methods

namespace LowerContext

variable {c : LowerContext} {st : LowerState} {n : Node} {vs : Array VariableDecl} {arguments : List Expr}

/-- the target of an invocation is a method that the arguments fit, whether or not there is a receiver -/
theorem invoked_sound {receiver : Option Expr} (ha : ∀ e ∈ arguments, e.Sound vs c.declarations.methods)
    (hr : ∀ e, receiver = some e → e.Sound vs c.declarations.methods) :
    (Expr.call (c.invoked st n arguments receiver)).Sound vs c.declarations.methods := by
  refine .call hr ha nofun fun id => ?_
  dsimp only [invoked]
  cases n.child? .object with
  | none => exact unqualified_for
  | some object => exact qualified_for

theorem created_sound {body : List Expr} (ha : ∀ e ∈ arguments, e.Sound vs c.declarations.methods)
    (hb : ∀ e ∈ body, e.Sound vs c.declarations.methods) :
    (Expr.call (c.created n arguments body)).Sound vs c.declarations.methods :=
  .call (by rintro _ ⟨⟩) ha hb fun _ => constructor?_for

theorem delegated_sound (ha : ∀ e ∈ arguments, e.Sound vs c.declarations.methods) :
    (Expr.call (c.delegated n arguments)).Sound vs c.declarations.methods :=
  .call (by rintro _ ⟨⟩) ha (List.forall_mem_nil _) fun _ => constructor?_for

end LowerContext

/-- **References are sound** where declarations are, at each of so many levels. -/
def Declarations.Sound.law {d : Declarations} (hd : d.Sound) (levels : Nat) : LoweringLaw where
  State := LowerState.Sound d
  Place c _ := c.declarations = d
  Typed _ := True
  Leaves _ vs e := e.Sound vs d.methods
  Gives _ vs e := e.Sound vs d.methods
  limit := levels
  Stops := True
  inside h _ := h
  localType h := h
  type _ _ _ := trivial
  parameter _ _ _ _ _ := trivial
  faulty _ _ _ := trivial
  creates _ _ _ _ := trivial
  opened _ h := h.opened
  closed _ i h := h.closed i
  declared h _ he := h.declare he
  initialized i h he := h.initialized i he
  leaves_mono _ hk h := h.later hk
  gives_mono _ hk h := h.later hk
  leaves_of_gives h := h
  cutOff _ := .other nofun
  literal := .literal
  name _ := by
    rintro rfl hst hk
    exact .name fun id hid => (LowerContext.lookup?_named hd hst hid).mono hk
  fieldAccess _ _ := by
    rintro rfl hst hk he
    exact .fieldAccess he fun id hid => (LowerContext.fieldBinding?_named hd hst hid).mono hk
  binary _ := .binary
  other _ := .other
  invoked := by
    rintro _ _ _ _ _ _ _ rfl - - - ha - hr
    exact LowerContext.invoked_sound ha hr
  created := by
    rintro _ _ _ _ _ _ rfl - ha hb
    exact LowerContext.created_sound ha hb
  delegated := by
    rintro _ _ _ _ _ rfl - ha
    exact LowerContext.delegated_sound ha

/-- **Every level of a body binds soundly.** -/
theorem Inner.ofLevels_resolves {d : Declarations} (hd : d.Sound) (levels : Nat) : (ofLevels levels).Resolves d := by
  have lawful := ofLevels_lawful (hd.law levels) levels le_rfl
  exact ⟨lawful.splice, lawful.expression⟩

end CallLint
