/-
Lowering actions that uphold an invariant. `Upholds` says that an action, started in a state with the invariant, stops in
such a state and gives a result with a property of its own. Variables are only added on the way, with their names and
kinds fixed (`KeepsVariables`), and the property may speak of the variables that are there when the action stops. There is
one rule for each way in which actions are put together.
-/
import CallLint.Proofs.CallSites.Yields
import CallLint.Proofs.References.Declared

namespace CallLint

/-! ## Variables -/

/-- the later variables have the names and kinds of the first -/
def KeepsVariables (vs vs' : Array VariableDecl) : Prop :=
  ∀ (i : Nat) (v : VariableDecl), vs[i]? = some v → ∃ v', vs'[i]? = some v' ∧ v'.name = v.name ∧ v'.kind = v.kind

namespace KeepsVariables

variable {vs vs' vs'' : Array VariableDecl}

theorem refl (vs : Array VariableDecl) : KeepsVariables vs vs :=
  fun _ v hv => ⟨v, hv, rfl, rfl⟩

theorem trans (h : KeepsVariables vs vs') (k : KeepsVariables vs' vs'') : KeepsVariables vs vs'' := by
  intro i v hv
  obtain ⟨v', hv', hname, hkind⟩ := h i v hv
  obtain ⟨v'', hv'', hname', hkind'⟩ := k i v' hv'
  exact ⟨v'', hv'', hname'.trans hname, hkind'.trans hkind⟩

theorem push (vs : Array VariableDecl) (v : VariableDecl) : KeepsVariables vs (vs.push v) :=
  fun _ u hu => ⟨u, getElem?_push_of_some hu v, rfl, rfl⟩

/-- a variable that gets an initializer keeps its name and kind -/
theorem modify (vs : Array VariableDecl) (i : Nat) (init : Option Expr) :
    KeepsVariables vs (vs.modify i fun v => { v with initializer := init }) := by
  intro j v hv
  rw [Array.getElem?_modify, hv]
  split
  · exact ⟨_, rfl, rfl, rfl⟩
  · exact ⟨v, rfl, rfl, rfl⟩

end KeepsVariables

/-- all variables of the state have the property -/
def LowerState.Each (V : VariableDecl → Prop) (st : LowerState) : Prop :=
  ∀ v ∈ st.variableDecls, V v

namespace LowerState.Each

variable {V : VariableDecl → Prop} {st : LowerState}

theorem declare (h : st.Each V) {v : VariableDecl} (hv : V v) : (st.declare v).Each V := by
  rw [Each, st.declare_variableDecls]
  intro u hu
  rcases Array.mem_push.1 hu with hu | rfl
  · exact h u hu
  · exact hv

theorem initialized (h : st.Each V) (i : Nat) {init : Option Expr} (hv : ∀ v, V v → V { v with initializer := init }) :
    Each V { st with variableDecls := st.variableDecls.modify i fun v => { v with initializer := init } } := by
  have all : ∀ v ∈ st.variableDecls.modify i (fun v => { v with initializer := init }), V v :=
    forall_mem_modify h (fun _ => id) hv
  exact all

end LowerState.Each

/-! ## Actions -/

namespace Lower

/-- Started with the invariant after the variables `vs`, the action stops with the invariant and with all variables, and
its result has the property there; or it stops with a fault, where something is bad. -/
def Upholds {α : Type} (bad : Prop) (I : LowerState → Prop) (vs : Array VariableDecl) (action : Lower α)
    (P : Array VariableDecl → α → Prop) : Prop :=
  ∀ st, I st → KeepsVariables vs st.variableDecls →
    Safe bad (fun r => I r.2 ∧ KeepsVariables st.variableDecls r.2.variableDecls ∧ P r.2.variableDecls r.1) (action st)

variable {α β : Type} {bad : Prop} {I : LowerState → Prop} {vs : Array VariableDecl} {x : Lower α} {P Q : Array VariableDecl → α → Prop}
  {R : Array VariableDecl → β → Prop}

theorem Upholds.imp (h : Upholds bad I vs x P) (hp : ∀ ws a, P ws a → Q ws a) : Upholds bad I vs x Q :=
  fun st hst hk => (h st hst hk).mono id fun _ ⟨hs, hkeep, hr⟩ => ⟨hs, hkeep, hp _ _ hr⟩

theorem Upholds.pure {a : α} (h : ∀ ws, KeepsVariables vs ws → P ws a) : Upholds bad I vs (Pure.pure a) P :=
  fun _ hst hk => ⟨hst, .refl _, h _ hk⟩

theorem Upholds.bind {f : α → Lower β} (h : Upholds bad I vs x P)
    (k : ∀ ws, KeepsVariables vs ws → ∀ a, P ws a → Upholds bad I ws (f a) R) : Upholds bad I vs (x >>= f) R := by
  intro st hst hk
  refine (h st hst hk).bind fun r ⟨hs, hkeep, hr⟩ => ?_
  refine (k _ (hk.trans hkeep) r.1 hr r.2 hs (.refl _)).mono id fun r' ⟨hs', hkeep', hr'⟩ => ?_
  exact ⟨hs', hkeep.trans hkeep', hr'⟩

theorem Upholds.map {f : α → β} (h : Upholds bad I vs x P) (k : ∀ ws ws', KeepsVariables ws ws' → ∀ a, P ws a → R ws' (f a)) :
    Upholds bad I vs (f <$> x) R :=
  h.bind fun ws _ a ha => .pure fun ws' hws => k ws ws' hws a ha

theorem Upholds.get {f : LowerState → Lower β}
    (k : ∀ st, I st → KeepsVariables vs st.variableDecls → Upholds bad I st.variableDecls (f st) R) :
    Upholds bad I vs ((MonadState.get : Lower LowerState) >>= f) R :=
  fun st hst hk => k st hst hk st hst (.refl _)

theorem Upholds.lift {e : Except Fault α} {f : α → Lower β} (hbad : ∀ fault, e = .error fault → bad)
    (k : ∀ a, Upholds bad I vs (f a) R) : Upholds bad I vs ((liftM e : Lower α) >>= f) R := by
  intro st hst hk
  cases e with
  | error fault => exact hbad fault rfl
  | ok a => exact k a st hst hk

theorem Upholds.declare {v : VariableDecl} (h : ∀ st, I st → KeepsVariables vs st.variableDecls → I (st.declare v)) :
    Upholds bad I vs (Lower.declare v) fun _ _ => True := by
  intro st hst hk
  refine ⟨h st hst hk, ?_, trivial⟩
  change KeepsVariables st.variableDecls (st.declare v).variableDecls
  rw [st.declare_variableDecls]
  exact .push _ v

/-- scopes that an action opens are closed again -/
theorem Upholds.inScope (opened : ∀ st, I st → I { st with scopes := [] :: st.scopes })
    (closed : ∀ st, I st → I { st with scopes := st.scopes.drop 1 }) (h : Upholds bad I vs x P) :
    Upholds bad I vs (Lower.inScope x) P :=
  fun st hst hk => (h _ (opened st hst) hk).bind fun r ⟨hs, hkeep, hr⟩ => ⟨closed r.2 hs, hkeep, hr⟩

theorem Upholds.mapM {f : β → Lower α} {l : List β} (hf : ∀ b ∈ l, ∀ ws, Upholds bad I ws (f b) P)
    (hp : ∀ ws ws', KeepsVariables ws ws' → ∀ a, P ws a → P ws' a) :
    Upholds bad I vs (l.mapM f) fun ws as => ∀ a ∈ as, P ws a := by
  induction l generalizing vs with
  | nil => exact .pure fun _ _ => by simp
  | cons b l ih =>
    rw [List.mapM_cons]
    refine (hf b List.mem_cons_self vs).bind fun ws _ a ha => ?_
    refine (ih fun b hb => hf b (List.mem_cons_of_mem _ hb)).bind fun ws' hws as has => .pure fun ws'' hws' a' ha' => ?_
    rcases List.mem_cons.1 ha' with rfl | ha'
    · exact hp ws ws'' (hws.trans hws') _ ha
    · exact hp ws' ws'' hws' a' (has a' ha')

theorem Upholds.forM {f : β → Lower PUnit} {l : List β} (hf : ∀ b ∈ l, ∀ ws, Upholds bad I ws (f b) fun _ _ => True) :
    Upholds bad I vs (l.forM f) fun _ _ => True := by
  induction l generalizing vs with
  | nil => exact .pure fun _ _ => trivial
  | cons b l ih =>
    change Upholds bad I vs (f b >>= fun _ => l.forM f) _
    exact (hf b List.mem_cons_self vs).bind fun _ _ _ _ => ih fun b hb => hf b (List.mem_cons_of_mem _ hb)

end Lower

end CallLint
