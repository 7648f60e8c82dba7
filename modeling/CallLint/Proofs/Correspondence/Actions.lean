/-
Lowering actions in two files, side by side. Both start after the same earlier variables and then declare their own, one
for one, so after `n` steps the local variables `n` positions apart correspond (`Correspondence.locals`). `Paired` says of
two actions that, started where `n` local variables correspond, both stop with a fault or both give related results after
at least as many. There is one rule for each way in which actions are put together.
-/
import CallLint.Proofs.CallSites.Yields
import CallLint.Proofs.Correspondence.Names

namespace CallLint

/-! ## Results -/

/-- both stop with a fault, or both give related results -/
def BothFaultOr {α β : Type} (P : α → β → Prop) : Except Fault α → Except Fault β → Prop
  | .ok a, .ok b => P a b
  | .error _, .error _ => True
  | _, _ => False

namespace BothFaultOr

variable {α β γ δ : Type} {P P' : α → β → Prop} {Q : γ → δ → Prop} {x : Except Fault α} {x' : Except Fault β}

theorem mono (h : BothFaultOr P x x') (hp : ∀ a b, P a b → P' a b) : BothFaultOr P' x x' := by
  cases x <;> cases x' <;> first | exact h | exact hp _ _ h

theorem bind {f : α → Except Fault γ} {f' : β → Except Fault δ} (h : BothFaultOr P x x')
    (hf : ∀ a b, P a b → BothFaultOr Q (f a) (f' b)) : BothFaultOr Q (x >>= f) (x' >>= f') := by
  cases x <;> cases x' <;> first | exact hf _ _ h | exact h.elim | trivial

theorem map {f : α → γ} {f' : β → δ} (h : BothFaultOr P x x') (hf : ∀ a b, P a b → Q (f a) (f' b)) :
    BothFaultOr Q (x.map f) (x'.map f') := by
  cases x <;> cases x' <;> first | exact hf _ _ h | exact h.elim | trivial

theorem comp {Q : β → γ → Prop} {R : α → γ → Prop} {x'' : Except Fault γ} (h : BothFaultOr P x x')
    (k : BothFaultOr Q x' x'') (hr : ∀ a b c, P a b → Q b c → R a c) : BothFaultOr R x x'' := by
  cases x <;> cases x' <;> cases x'' <;> first | exact hr _ _ _ h k | exact h.elim | exact k.elim | trivial

end BothFaultOr

/-! ## Variables of a body -/

/-- as many variables from one position on correspond to those from another on -/
def Correspondence.locals (R : Correspondence) (base base' n : Nat) : Correspondence :=
  { R with vars := fun a a' => R.vars a a' ∨ ∃ k < n, a = ⟨base + k⟩ ∧ a' = ⟨base' + k⟩ }

theorem Correspondence.grows_locals (R : Correspondence) (base base' n : Nat) : R.Grows (R.locals base base' n) :=
  ⟨rfl, rfl, fun _ _ h => Or.inl h, rfl⟩

theorem Correspondence.locals_grows (R : Correspondence) (base base' : Nat) {m n : Nat} (h : m ≤ n) :
    (R.locals base base' m).Grows (R.locals base base' n) :=
  ⟨rfl, rfl, fun _ _ hv => hv.imp_right fun ⟨k, hk, hkk⟩ => ⟨k, hk.trans_le h, hkk⟩, rfl⟩

theorem VariableDecl.Matches.grow {R R' : Correspondence} (hg : R.Grows R') {v v' : VariableDecl} (h : v.Matches R v') :
    v.Matches R' v' :=
  ⟨h.name, h.kind, h.declaredType, h.isFinal, optionMatches_mono hg _ h.initializer, hg.spans ▸ h.span⟩

/-- the corresponding variables are there, with the same declared types -/
def Correspondence.Typed (R : Correspondence) (vars vars' : Array VariableDecl) : Prop :=
  ∀ {a a' : VariableId}, R.vars a a' →
    ∃ v v', vars[a.index]? = some v ∧ vars'[a'.index]? = some v' ∧ v.declaredType = v'.declaredType

/-- states after `n` variables more than at the start of a body -/
structure LowerState.Abreast (R : Correspondence) (vars vars' : Array VariableDecl) (n : Nat) (st st' : LowerState) :
    Prop where
  declared : ∃ ls ls', st.variableDecls.toList = vars.toList ++ ls ∧ st'.variableDecls.toList = vars'.toList ++ ls' ∧
    ls.length = n ∧ List.Forall₂ (VariableDecl.Matches (R.locals vars.size vars'.size n)) ls ls'
  scopes : List.Forall₂ (List.Forall₂ fun p p' => p.1 = p'.1 ∧ (R.locals vars.size vars'.size n).vars p.2 p'.2)
    st.scopes st'.scopes

theorem forall₂_lookup {α β : Type} {r : α → β → Prop} {ps : List (String × α)} {qs : List (String × β)}
    (h : List.Forall₂ (fun p q => p.1 = q.1 ∧ r p.2 q.2) ps qs) (name : String) :
    Option.Rel r (ps.lookup name) (qs.lookup name) := by
  induction h with
  | nil => exact .none
  | @cons p q ps qs hpq _ ih =>
    obtain ⟨key, a⟩ := p
    obtain ⟨key', b⟩ := q
    obtain ⟨rfl, hab⟩ : key = key' ∧ r a b := hpq
    rw [List.lookup_cons, List.lookup_cons]
    cases name == key with
    | true => exact .some hab
    | false => exact ih

theorem getElem?_append_base {α : Type} (vs ls : List α) (k : Nat) : (vs ++ ls)[vs.length + k]? = ls[k]? := by
  rw [List.getElem?_append_right (Nat.le_add_right _ _), Nat.add_sub_cancel_left]

namespace LowerState.Abreast

variable {R : Correspondence} {vars vars' : Array VariableDecl} {n : Nat} {st st' : LowerState}

/-- where a body starts -/
theorem start (R : Correspondence) (vars vars' : Array VariableDecl) :
    LowerState.Abreast R vars vars' 0 ⟨vars, []⟩ ⟨vars', []⟩ :=
  ⟨⟨[], [], by simp, by simp, rfl, .nil⟩, .nil⟩

theorem size (h : Abreast R vars vars' n st st') :
    st.variableDecls.size = vars.size + n ∧ st'.variableDecls.size = vars'.size + n := by
  obtain ⟨ls, ls', hls, hls', rfl, hm⟩ := h.declared
  have size {xs ys : Array VariableDecl} {zs : List VariableDecl} (h : xs.toList = ys.toList ++ zs) :
      xs.size = ys.size + zs.length := by
    rw [← Array.length_toList, h, List.length_append, Array.length_toList]
  exact ⟨size hls, by rw [size hls', hm.length_eq]⟩

/-- names that are looked up in abreast states mean the same -/
theorem alike (h : Abreast R vars vars' n st st') (ht : R.Typed vars vars') :
    st.Alike (R.locals vars.size vars'.size n) st' where
  local? name := forall₂_findSome? (fun _ _ hs => forall₂_lookup hs name) h.scopes
  typeOf? {id id'} hid := by
    obtain ⟨ls, ls', hls, hls', hn, hm⟩ := h.declared
    rw [LowerState.typeOf?, LowerState.typeOf?, ← Array.getElem?_toList, ← Array.getElem?_toList, hls, hls']
    rcases hid with hid | ⟨k, hk, rfl, rfl⟩
    · obtain ⟨v, v', hv, hv', htype⟩ := ht hid
      rw [← Array.getElem?_toList] at hv hv'
      rw [List.getElem?_append_left (List.getElem?_eq_some_iff.1 hv).1,
        List.getElem?_append_left (List.getElem?_eq_some_iff.1 hv').1, hv, hv']
      exact htype
    · rw [← Array.length_toList, ← Array.length_toList, getElem?_append_base, getElem?_append_base]
      have hk' : k < ls.length := hn ▸ hk
      rw [List.getElem?_eq_getElem hk', List.getElem?_eq_getElem (hm.length_eq ▸ hk')]
      exact (hm.get hk' (hm.length_eq ▸ hk')).declaredType

/-- each state has one variable more, and these correspond -/
theorem declare (h : Abreast R vars vars' n st st') {v v' : VariableDecl}
    (hv : v.Matches (R.locals vars.size vars'.size n) v') :
    Abreast R vars vars' (n + 1) (st.declare v) (st'.declare v') := by
  have grow := R.locals_grows vars.size vars'.size n.le_succ
  obtain ⟨size, size'⟩ := h.size
  obtain ⟨ls, ls', hls, hls', hn, hm⟩ := h.declared
  have scopes : List.Forall₂ (List.Forall₂ fun p p' =>
      p.1 = p'.1 ∧ (R.locals vars.size vars'.size (n + 1)).vars p.2 p'.2) st.scopes st'.scopes :=
    h.scopes.imp fun _ _ hs => hs.imp fun _ _ hp => ⟨hp.1, grow.vars _ _ hp.2⟩
  have new : v.name = v'.name ∧ (R.locals vars.size vars'.size (n + 1)).vars ⟨st.variableDecls.size⟩
      ⟨st'.variableDecls.size⟩ :=
    ⟨hv.name, Or.inr ⟨n, n.lt_succ_self, by rw [size], by rw [size']⟩⟩
  refine ⟨⟨ls ++ [v], ls' ++ [v'], ?_, ?_, by simp [hn], ?_⟩, ?_⟩
  · rw [st.declare_variableDecls, Array.toList_push, hls, List.append_assoc]
  · rw [st'.declare_variableDecls, Array.toList_push, hls', List.append_assoc]
  · exact List.rel_append (hm.imp fun _ _ h => h.grow grow) (.cons (hv.grow grow) .nil)
  · obtain ⟨decls, open_⟩ := st
    obtain ⟨decls', open'⟩ := st'
    dsimp only at scopes
    cases scopes with
    | nil => exact .cons (.cons new .nil) .nil
    | cons hs hss => exact .cons (.cons new hs) hss

end LowerState.Abreast

/-! ## Actions -/

namespace Lower

section Paired

variable {R : Correspondence} {vars vars' : Array VariableDecl} {n : Nat}

/-- the actions go on abreast, and their results are related -/
def Paired {α β : Type} (R : Correspondence) (vars vars' : Array VariableDecl) (n : Nat) (x : Lower α) (x' : Lower β)
    (P : Nat → α → β → Prop) : Prop :=
  ∀ st st', LowerState.Abreast R vars vars' n st st' →
    BothFaultOr (fun r r' => ∃ m, n ≤ m ∧ LowerState.Abreast R vars vars' m r.2 r'.2 ∧ P m r.1 r'.1) (x st) (x' st')

variable {α β γ δ : Type} {x : Lower α} {x' : Lower β} {P : Nat → α → β → Prop} {Q : Nat → γ → δ → Prop}

theorem Paired.pure {a : α} {b : β} (h : P n a b) : Paired R vars vars' n (Pure.pure a) (Pure.pure b) P :=
  fun _ _ hst => ⟨n, le_rfl, hst, h⟩

theorem Paired.bind {f : α → Lower γ} {f' : β → Lower δ} (h : Paired R vars vars' n x x' P)
    (hf : ∀ m, n ≤ m → ∀ a b, P m a b → Paired R vars vars' m (f a) (f' b) Q) :
    Paired R vars vars' n (x >>= f) (x' >>= f') Q := by
  intro st st' hst
  refine (h st st' hst).bind fun r r' ⟨m, hm, hs, hr⟩ => ?_
  exact (hf m hm _ _ hr r.2 r'.2 hs).mono fun _ _ ⟨k, hk, hks, hkr⟩ => ⟨k, hm.trans hk, hks, hkr⟩

theorem Paired.map {f : α → γ} {f' : β → δ} (h : Paired R vars vars' n x x' P)
    (hf : ∀ m, n ≤ m → ∀ a b, P m a b → Q m (f a) (f' b)) : Paired R vars vars' n (f <$> x) (f' <$> x') Q :=
  h.bind fun m hm a b hab => .pure (hf m hm a b hab)

theorem Paired.get {f f' : LowerState → Lower γ} {Q : Nat → γ → γ → Prop}
    (h : ∀ st st', LowerState.Abreast R vars vars' n st st' → Paired R vars vars' n (f st) (f' st') Q) :
    Paired R vars vars' n ((MonadState.get : Lower LowerState) >>= f) ((MonadState.get : Lower LowerState) >>= f') Q :=
  fun st st' hst => h st st' hst st st' hst

theorem Paired.lift (e : Except Fault α) {f f' : α → Lower γ} {Q : Nat → γ → γ → Prop}
    (h : ∀ a, Paired R vars vars' n (f a) (f' a) Q) :
    Paired R vars vars' n ((liftM e : Lower α) >>= f) ((liftM e : Lower α) >>= f') Q := by
  intro st st' hst
  cases e with
  | error fault => trivial
  | ok a => exact h a st st' hst

theorem Paired.declare {name : String} {kind : VariableKind} {type : Option String} {isFinal : Bool}
    {e e' : Option Expr} {span span' : Span}
    (he : Option.Rel (Expr.Matches (R.locals vars.size vars'.size n)) e e') (hs : R.spans span span') :
    Paired R vars vars' n (Lower.declare ⟨name, kind, type, isFinal, e, span⟩)
      (Lower.declare ⟨name, kind, type, isFinal, e', span'⟩) fun _ _ _ => True :=
  fun _ _ hst => ⟨n + 1, n.le_succ, hst.declare ⟨rfl, rfl, rfl, rfl, he, hs⟩, trivial⟩

/-- scopes that an action opens are closed again -/
theorem Paired.inScope (h : Paired R vars vars' n x x' P) :
    Paired R vars vars' n (Lower.inScope x) (Lower.inScope x') P := by
  intro st st' hst
  refine (h { st with scopes := [] :: st.scopes } { st' with scopes := [] :: st'.scopes }
    ⟨hst.declared, .cons .nil hst.scopes⟩).bind fun r r' ⟨m, hm, hs, hr⟩ => ?_
  exact ⟨m, hm, ⟨hs.declared, List.forall₂_drop 1 hs.scopes⟩, hr⟩

/-- the actions of two lists, one for one -/
theorem Paired.mapM {ι κ : Type} {r : ι → κ → Prop} {f : ι → Lower α} {f' : κ → Lower β}
    (hmono : ∀ {m k}, m ≤ k → ∀ {a b}, P m a b → P k a b) {as : List ι} {bs : List κ} (h : List.Forall₂ r as bs)
    (hf : ∀ m, n ≤ m → ∀ a b, r a b → Paired R vars vars' m (f a) (f' b) P) :
    Paired R vars vars' n (as.mapM f) (bs.mapM f') fun m => List.Forall₂ (P m) := by
  induction h generalizing n with
  | nil => exact .pure .nil
  | @cons a b as bs hab _ ih =>
    rw [List.mapM_cons, List.mapM_cons]
    refine (hf n le_rfl a b hab).bind fun m hm c d hcd => ?_
    refine (ih fun k hk => hf k (hm.trans hk)).bind fun k hk cs ds hcds => ?_
    exact .pure (.cons (hmono hk hcd) hcds)

theorem Paired.forM {ι κ : Type} {r : ι → κ → Prop} {f : ι → Lower PUnit} {f' : κ → Lower PUnit} {as : List ι}
    {bs : List κ} (h : List.Forall₂ r as bs)
    (hf : ∀ m, n ≤ m → ∀ a b, r a b → Paired R vars vars' m (f a) (f' b) fun _ _ _ => True) :
    Paired R vars vars' n (as.forM f) (bs.forM f') fun _ _ _ => True := by
  induction h generalizing n with
  | nil => exact .pure trivial
  | @cons a b as bs hab _ ih =>
    change Paired R vars vars' n (f a >>= fun _ => as.forM f) (f' b >>= fun _ => bs.forM f') _
    exact (hf n le_rfl a b hab).bind fun m hm _ _ _ => ih fun k hk => hf k (hm.trans hk)

variable {c c' : LowerContext}

theorem Paired.declareParameters (hc : c.Alike R c') {list list' : Node}
    (h : list.Alike R.spans c.source c'.source list') :
    Paired R vars vars' n (Lower.declareParameters c list) (Lower.declareParameters c' list') fun _ _ _ => True := by
  refine .forM h.parametersOf fun m _ p p' hp => ?_
  rw [hp.name, hp.isFinal, hc.agree.resolve_erased hp.type]
  exact .declare .none h.span

theorem Paired.declareUntyped {name name' location location' : Node}
    (htext : c.textOf name = c'.textOf name') (h : location.Alike R.spans c.source c'.source location') :
    Paired R vars vars' n (Lower.declareUntyped c name location) (Lower.declareUntyped c' name' location')
      fun _ _ _ => True := by
  rw [Lower.declareUntyped, Lower.declareUntyped, htext]
  exact .declare .none h.span

end Paired

end Lower

end CallLint
