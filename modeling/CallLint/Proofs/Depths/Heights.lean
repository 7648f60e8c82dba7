/-
How high lowered expressions are. Receivers, arguments, operands, children and anonymous bodies lie inside an expression
(`Expr.height`). What a node leaves is one higher than what the nodes inside it leave, and a node that is cut off leaves
one opaque expression at most. So it is a law of lowering that what so many levels leave is one higher than the levels
(`heightLaw`), and no expression of a unit is higher than `nestingLimit + 1` (`CompilationUnit.ofTree_low`).
-/
import CallLint.Proofs.Laws.Units

namespace CallLint

/-! ## Heights -/

mutual

/-- how many expressions lie inside one another, the outermost counted -/
def Expr.height : Expr → Nat
  | .literal _ => 1
  | .name _ _ => 1
  | .fieldAccess target _ _ => target.height + 1
  | .binary _ left right => max left.height right.height + 1
  | .call c => callHeight c + 1
  | .other _ children => listHeight children + 1
termination_by structural e => e

/-- the height of what lies inside a call -/
def callHeight : Call Expr → Nat
  | ⟨_, _, receiver, arguments, body, _, _, _⟩ => max (optionHeight receiver) (max (listHeight arguments) (listHeight body))
termination_by structural c => c

def optionHeight : Option Expr → Nat
  | none => 0
  | some e => e.height
termination_by structural o => o

/-- the greatest height in a list -/
def listHeight : List Expr → Nat
  | [] => 0
  | e :: es => max e.height (listHeight es)
termination_by structural es => es

end

/-- no expression of the list is higher than this -/
def AllLow (h : Nat) (es : List Expr) : Prop :=
  ∀ e ∈ es, e.height ≤ h

variable {h : Nat} {es : List Expr}

theorem listHeight_le : listHeight es ≤ h ↔ AllLow h es := by
  induction es with
  | nil => simp [listHeight, AllLow]
  | cons e es ih => simp [listHeight, AllLow, ih]

theorem optionHeight_le {o : Option Expr} : optionHeight o ≤ h ↔ ∀ e, o = some e → e.height ≤ h := by
  cases o <;> simp [optionHeight]

theorem Expr.height_other (kind : String) (hes : AllLow h es) : (Expr.other kind es).height ≤ h + 1 :=
  Nat.succ_le_succ (listHeight_le.2 hes)

theorem Expr.height_call {c : Call Expr} (hr : ∀ e, c.receiver = some e → e.height ≤ h) (ha : AllLow h c.arguments)
    (hb : AllLow h c.anonymousBody) : (Expr.call c).height ≤ h + 1 := by
  obtain ⟨name, owner, receiver, arguments, body, target, nameSpan, span⟩ := c
  rw [height, callHeight]
  exact Nat.succ_le_succ (max_le (optionHeight_le.2 hr) (max_le (listHeight_le.2 ha) (listHeight_le.2 hb)))

/-! ## Levels -/

/-- the initializer of the variable is no higher than this -/
def VariableDecl.Low (h : Nat) (v : VariableDecl) : Prop :=
  ∀ e, v.initializer = some e → e.height ≤ h

/-- **What so many levels leave is one higher than the levels**, and no higher. -/
def heightLaw (limit : Nat) : LoweringLaw where
  State := LowerState.Each (VariableDecl.Low (limit + 1))
  Place _ _ := True
  Typed _ := True
  Leaves k _ e := e.height ≤ k + 1
  Gives k _ e := e.height ≤ k + 1
  limit := limit
  Stops := True
  inside _ _ := trivial
  localType _ := trivial
  type _ _ _ := trivial
  parameter _ _ _ _ _ := trivial
  faulty _ _ _ := trivial
  creates _ _ _ _ := trivial
  opened _ h := h
  closed _ _ h := h
  declared h _ he := h.declare he
  initialized i h he := h.initialized i fun _ _ => he
  leaves_mono hl _ h := h.trans (Nat.succ_le_succ hl)
  gives_mono hl _ h := h.trans (Nat.succ_le_succ hl)
  leaves_of_gives h := h
  cutOff _ := Expr.height_other _ nofun
  literal _ := Nat.succ_le_succ (Nat.zero_le _)
  name _ _ _ _ := Nat.succ_le_succ (Nat.zero_le _)
  fieldAccess _ _ _ _ _ he := Nat.succ_le_succ he
  binary _ hl hr := Nat.succ_le_succ (max_le hl hr)
  other _ hes := Expr.height_other _ hes
  invoked _ _ _ _ ha _ hr := Expr.height_call hr ha nofun
  created _ _ ha hb := Expr.height_call nofun ha hb
  delegated _ _ ha := Expr.height_call nofun ha nofun

/-! ## Units -/

namespace CompilationUnit

/-- no expression that the unit stores is higher than this -/
structure Low (h : Nat) (u : CompilationUnit) : Prop where
  initializers : ∀ v ∈ u.variableDecls, ∀ e, v.initializer = some e → e.height ≤ h
  methods : ∀ m ∈ u.methods, ∀ es, m.body = some es → AllLow h es
  blocks : ∀ b ∈ u.blocks, AllLow h b.body

/-- **No expression of a unit is higher than the limit and one.** -/
theorem ofTree_low (path : String) (s : Source) (root : Node) :
    Safe True (Low (nestingLimit + 1)) (ofTree path s root) := by
  have fields : LowerState.Each (VariableDecl.Low (nestingLimit + 1)) ⟨(s.declarationsOf root).fields, []⟩ := by
    intro v hv e he
    rw [(s.declarationsOf_sound root).withoutInitializer v hv] at he
    cases he
  have lawful := ofTree_lawful (L := heightLaw nestingLimit) le_rfl fields (fun _ _ _ => trivial) path
  exact lawful.mono id fun u hu => ⟨hu.state, hu.methodBodies, fun b hb => (hu.blocks b hb).2⟩

end CompilationUnit

end CallLint
