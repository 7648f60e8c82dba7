/-
What lowering actions give. `Yields bad action P` says that the action, started in any state, gives a result with the
property `P` and adds only variables that are no fields, or that it stops with a fault and `bad` holds. There is one rule
for each way in which actions are put together, so that what is shown of lowering follows its text.
-/
import CallLint.Source.Lowering
import Mathlib.Tactic

namespace CallLint

/-- the later state has all variables of the first, and new ones that are no fields -/
def LowerState.Grows (st st' : LowerState) : Prop :=
  ∃ vs : List VariableDecl, st'.variableDecls.toList = st.variableDecls.toList ++ vs ∧ ∀ v ∈ vs, v.kind ≠ .field

theorem LowerState.Grows.refl (st : LowerState) : st.Grows st :=
  ⟨[], by simp, by simp⟩

theorem LowerState.Grows.trans {st st' st'' : LowerState} (h : st.Grows st') (k : st'.Grows st'') : st.Grows st'' := by
  obtain ⟨vs, hvs, hf⟩ := h
  obtain ⟨ws, hws, hg⟩ := k
  refine ⟨vs ++ ws, by rw [hws, hvs, List.append_assoc], fun v hv => ?_⟩
  exact (List.mem_append.1 hv).elim (hf v) (hg v)

/-- a new variable comes after those that are there -/
theorem LowerState.declare_variableDecls (st : LowerState) (v : VariableDecl) :
    (st.declare v).variableDecls = st.variableDecls.push v := by
  rw [LowerState.declare, LowerState.bind]
  split <;> rfl

/-! ## Results -/

/-- the result has the property; there is a fault only when something is bad -/
def Safe {α : Type} (bad : Prop) (P : α → Prop) : Except Fault α → Prop
  | .ok result => P result
  | .error _ => bad

theorem Safe.mono {α : Type} {bad bad' : Prop} {P Q : α → Prop} {r : Except Fault α} (h : Safe bad P r)
    (hb : bad → bad') (hp : ∀ a, P a → Q a) : Safe bad' Q r := by
  cases r with
  | ok a => exact hp a h
  | error f => exact hb h

theorem Safe.bind {α β : Type} {bad : Prop} {P : α → Prop} {Q : β → Prop} {r : Except Fault α}
    {f : α → Except Fault β} (h : Safe bad P r) (k : ∀ a, P a → Safe bad Q (f a)) : Safe bad Q (r >>= f) := by
  cases r with
  | ok a => exact k a h
  | error f => exact h

theorem Safe.and {α : Type} {bad bad' : Prop} {P Q : α → Prop} {r : Except Fault α} (h : Safe bad P r)
    (k : Safe bad' Q r) : Safe bad (fun a => P a ∧ Q a) r := by
  cases r with
  | ok a => exact ⟨h, k⟩
  | error fault => exact h

/-! ## Actions -/

namespace Lower

/-- results of the action have the property; faults only when something is bad -/
def Yields {α : Type} (bad : Prop) (action : Lower α) (P : α → Prop) : Prop :=
  ∀ st, Safe bad (fun r => P r.1 ∧ st.Grows r.2) (action st)

variable {α β : Type} {bad bad' : Prop} {x : Lower α} {P Q : α → Prop} {R : β → Prop}

theorem Yields.mono (h : Yields bad x P) (hb : bad → bad') (hp : ∀ a, P a → Q a) : Yields bad' x Q :=
  fun st => (h st).mono hb fun _ hr => ⟨hp _ hr.1, hr.2⟩

theorem Yields.imp (h : Yields bad x P) (hp : ∀ a, P a → Q a) : Yields bad x Q :=
  h.mono id hp

theorem Yields.pure {a : α} (h : P a) : Yields bad (Pure.pure a) P :=
  fun st => ⟨h, .refl st⟩

theorem Yields.bind {f : α → Lower β} (h : Yields bad x P) (k : ∀ a, P a → Yields bad (f a) R) :
    Yields bad (x >>= f) R := by
  intro st
  refine (h st).bind fun r hr => ?_
  exact (k r.1 hr.1 r.2).mono id fun r' hr' => ⟨hr'.1, hr.2.trans hr'.2⟩

theorem Yields.map {f : α → β} (h : Yields bad x P) (k : ∀ a, P a → R (f a)) : Yields bad (f <$> x) R :=
  h.bind fun a ha => .pure (k a ha)

theorem Yields.get {f : LowerState → Lower β} (k : ∀ st, Yields bad (f st) R) :
    Yields bad ((MonadState.get : Lower LowerState) >>= f) R :=
  fun st => k st st

theorem Yields.lift {e : Except Fault α} {f : α → Lower β} (hbad : ∀ fault, e = .error fault → bad)
    (k : ∀ a, e = .ok a → Yields bad (f a) R) : Yields bad ((liftM e : Lower α) >>= f) R := by
  intro st
  cases e with
  | error fault => exact hbad fault rfl
  | ok a => exact k a rfl st

theorem Yields.declare {v : VariableDecl} (hv : v.kind ≠ .field) : Yields bad (Lower.declare v) fun _ => True := by
  intro st
  refine ⟨trivial, [v], ?_, by simpa using hv⟩
  change (st.declare v).variableDecls.toList = _
  rw [st.declare_variableDecls, Array.toList_push]

theorem Yields.inScope (h : Yields bad x P) : Yields bad (Lower.inScope x) P :=
  fun st => (h { st with scopes := [] :: st.scopes }).bind fun _ hr => hr

/-- what the results of a list of actions hold together is what the actions' items hold together -/
theorem Yields.mapM {γ : Type} {f : β → Lower α} {g : α → List γ} {h : β → List γ} {l : List β}
    (hf : ∀ b ∈ l, Yields bad (f b) fun a => g a = h b) :
    Yields bad (l.mapM f) fun as => as.flatMap g = l.flatMap h := by
  induction l with
  | nil => exact .pure rfl
  | cons b l ih =>
    rw [List.mapM_cons]
    refine (hf b List.mem_cons_self).bind fun a ha => ?_
    refine (ih fun b hb => hf b (List.mem_cons_of_mem _ hb)).bind fun as has => ?_
    refine .pure ?_
    rw [List.flatMap_cons, List.flatMap_cons, ha, has]

theorem Yields.forM {f : β → Lower PUnit} {l : List β} (hf : ∀ b ∈ l, Yields bad (f b) fun _ => True) :
    Yields bad (l.forM f) fun _ => True := by
  induction l with
  | nil => exact .pure trivial
  | cons b l ih =>
    change Yields bad (f b >>= fun _ => l.forM f) _
    exact (hf b List.mem_cons_self).bind fun _ _ => ih fun b hb => hf b (List.mem_cons_of_mem _ hb)

theorem Yields.declareParameters (c : LowerContext) (list : Node) :
    Yields bad (Lower.declareParameters c list) fun _ => True :=
  .forM fun _ _ => .declare (by simp)

theorem Yields.declareUntyped (c : LowerContext) (name location : Node) :
    Yields bad (Lower.declareUntyped c name location) fun _ => True :=
  .declare (by simp)

end Lower

end CallLint
