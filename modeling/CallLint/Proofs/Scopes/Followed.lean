/-
Lowering follows the events of a body. A state mirrors what a walk knows when its variables are the entries and its scopes,
laid end to end, are the variables in force (`LowerState.Mirrors`). An action follows events when it takes states that
mirror one place to states that mirror the place after the events, closes the scopes it opens, and binds the names in its
result as the walk finds them (`Lower.Follows`). There is one rule for each way in which actions are put together, one
lemma for each construct, and `Inner.ofLevels_follows` for all levels.
-/
import CallLint.Proofs.CallSites.Yields
import CallLint.Proofs.Scopes.Traces

namespace CallLint

/-! ## Names in expressions -/

mutual

/-- the names in an expression with what they are bound to, in the order of lowering -/
def Expr.names : Expr → List (String × Option VariableId)
  | .literal _ => []
  | .name name binding => [(name, binding)]
  | .fieldAccess target _ _ => target.names
  | .binary _ left right => left.names ++ right.names
  | .call c => callNames c
  | .other _ children => namesIn children
termination_by structural e => e

def callNames : Call Expr → List (String × Option VariableId)
  | ⟨_, _, receiver, arguments, body, _, _, _⟩ => namesIn arguments ++ (optionNames receiver ++ namesIn body)
termination_by structural c => c

def optionNames : Option Expr → List (String × Option VariableId)
  | none => []
  | some e => e.names
termination_by structural o => o

def namesIn : List Expr → List (String × Option VariableId)
  | [] => []
  | e :: es => e.names ++ namesIn es
termination_by structural es => es

end

@[simp] theorem namesIn_nil : namesIn [] = [] := rfl

@[simp] theorem namesIn_singleton (e : Expr) : namesIn [e] = e.names :=
  List.append_nil _

theorem namesIn_eq (es : List Expr) : namesIn es = es.flatMap Expr.names := by
  induction es with
  | nil => rfl
  | cons e es ih => rw [namesIn, ih, List.flatMap_cons]

@[simp] theorem namesIn_append (es fs : List Expr) : namesIn (es ++ fs) = namesIn es ++ namesIn fs := by
  rw [namesIn_eq, namesIn_eq, namesIn_eq, List.flatMap_append]

theorem namesIn_flatten (ess : List (List Expr)) : namesIn ess.flatten = ess.flatMap namesIn := by
  induction ess with
  | nil => rfl
  | cons es ess ih => rw [List.flatten_cons, namesIn_append, ih, List.flatMap_cons]

theorem namesIn_toList (o : Option Expr) : namesIn o.toList = optionNames o := by
  cases o with
  | none => rfl
  | some e => exact namesIn_singleton e

/-! ## States and walks -/

/-- the variable is one that the source declares -/
structure VariableDecl.Is (s : Source) (v : VariableDecl) (d : Declared) : Prop where
  name : v.name = d.name
  kind : v.kind = d.kind
  span : v.span = s.spanOf d.node

/-- the variables after the first ones are those that a walk has met, and the scopes hold those that are in force -/
structure LowerState.Mirrors (s : Source) (vs : List VariableDecl) (st : LowerState) (env : Env) : Prop where
  decls : ∃ ws, st.variableDecls.toList = vs ++ ws ∧ List.Forall₂ (fun w d => w.Is s d.declared) ws env.entries
  live : st.scopes.flatten = env.live.map fun p => (p.2.declared.name, ⟨vs.length + p.1⟩)

/-- what a name is bound to where some variables are in force: the first of that name, or what it means outside -/
def Use.bound (base : Nat) (outside : String → Option VariableId) (p : Use × List (Nat × Entry)) :
    String × Option VariableId :=
  (p.1.name, ((p.1.find p.2).map fun k => ⟨base + k⟩).or (outside p.1.name))

/-- the field that a name means where no variable has that name -/
def LowerContext.outside (c : LowerContext) (name : String) : Option VariableId :=
  (c.declarations.enclosingChain c.owner).findSome? fun t => c.declarations.fieldIn? t name

namespace LowerState

variable {s : Source} {vs : List VariableDecl} {st : LowerState} {env : Env}

theorem local?_eq (st : LowerState) (name : String) : st.local? name = st.scopes.flatten.lookup name := by
  unfold local?
  induction st.scopes with
  | nil => rfl
  | cons scope outer ih =>
    rw [List.findSome?_cons, List.flatten_cons, List.lookup_append, ← ih]
    cases scope.lookup name <;> rfl

theorem lookup_live (base : Nat) (live : List (Nat × Entry)) (x : Use) :
    (live.map fun p => (p.2.declared.name, (⟨base + p.1⟩ : VariableId))).lookup x.name =
      (x.find live).map fun k => ⟨base + k⟩ := by
  induction live with
  | nil => rfl
  | cons p live ih =>
    rw [List.map_cons, List.lookup_cons, ih, Use.find, Use.find, List.find?_cons]
    cases h : p.2.declared.name == x.name with
    | true => rw [show (x.name == p.2.declared.name) = true from by rwa [BEq.comm]]; rfl
    | false => rw [show (x.name == p.2.declared.name) = false from by rwa [BEq.comm]]

/-- a name is looked up as a walk finds it -/
theorem Mirrors.lookup? (h : st.Mirrors s vs env) (c : LowerContext) (x : Use) :
    (x.name, c.lookup? st x.name) = Use.bound vs.length c.outside (x, env.live) := by
  rw [LowerContext.lookup?, local?_eq, h.live, lookup_live]
  rfl

theorem Mirrors.size (h : st.Mirrors s vs env) : st.variableDecls.size = vs.length + env.entries.length := by
  obtain ⟨ws, hws, hall⟩ := h.decls
  rw [← Array.length_toList, hws, List.length_append, hall.length_eq]

/-- a new variable is the last one in force -/
theorem Mirrors.declare (h : st.Mirrors s vs env) {v : VariableDecl} {d : Entry} (hv : v.Is s d.declared) :
    (st.declare v).Mirrors s vs (env.declare d) ∧ (st.declare v).scopes.drop 1 = st.scopes.drop 1 := by
  have hsize := h.size
  obtain ⟨ws, hws, hall⟩ := h.decls
  have live := h.live
  obtain ⟨vars, scopes⟩ := st
  have declared : ∃ ws, (vars.push v).toList = vs ++ ws ∧
      List.Forall₂ (fun w d => w.Is s d.declared) ws (env.entries ++ [d]) := by
    refine ⟨ws ++ [v], ?_, List.rel_append hall (.cons hv .nil)⟩
    rw [Array.toList_push, ← List.append_assoc]
    exact congrArg (· ++ [v]) hws
  have named : (v.name, (⟨vars.size⟩ : VariableId)) = (d.declared.name, ⟨vs.length + env.entries.length⟩) := by
    rw [hv.name]
    exact congrArg (fun i => (_, VariableId.mk i)) hsize
  cases scopes with
  | nil => exact ⟨⟨declared, congrArg₂ List.cons named live⟩, rfl⟩
  | cons scope outer => exact ⟨⟨declared, congrArg₂ List.cons named live⟩, rfl⟩

end LowerState

/-! ## Actions -/

namespace Lower

/-- Started at one place of a walk, the action stops at the place after the events, with the outer scopes as they were; the
names in the events, bound as the walk finds them, and the result are related. Or it stops with a fault. -/
def Follows {α : Type} (s : Source) (vs : List VariableDecl) (outside : String → Option VariableId) (scopes : List Node)
    (es : List Event) (action : Lower α) (P : List (String × Option VariableId) → α → Prop) : Prop :=
  ∀ st env, st.Mirrors s vs env →
    Safe True (fun r => r.2.Mirrors s vs (Event.afterIn scopes es env) ∧ r.2.scopes.drop 1 = st.scopes.drop 1 ∧
      P ((Event.seenIn scopes es env).map (Use.bound vs.length outside)) r.1) (action st)

variable {α β : Type} {s : Source} {vs : List VariableDecl} {outside : String → Option VariableId} {scopes : List Node}
  {es fs : List Event} {x : Lower α} {P : List (String × Option VariableId) → α → Prop}
  {R : List (String × Option VariableId) → β → Prop}

theorem Follows.pure {a : α} (h : P [] a) : Follows s vs outside scopes [] (Pure.pure a) P :=
  fun _ _ hst => ⟨hst, rfl, h⟩

theorem Follows.bind {f : α → Lower β} (h : Follows s vs outside scopes es x P)
    (k : ∀ xs a, P xs a → Follows s vs outside scopes fs (f a) fun ys b => R (xs ++ ys) b) :
    Follows s vs outside scopes (es ++ fs) (x >>= f) R := by
  intro st env hst
  refine (h st env hst).bind fun r ⟨hr, hdrop, hp⟩ => ?_
  refine (k _ r.1 hp r.2 _ hr).mono id fun r' ⟨hr', hdrop', hp'⟩ => ?_
  rw [Event.afterIn_append, Event.seenIn_append, List.map_append]
  exact ⟨hr', hdrop'.trans hdrop, hp'⟩

theorem Follows.map {f : α → β} (h : Follows s vs outside scopes es x P) (k : ∀ xs a, P xs a → R xs (f a)) :
    Follows s vs outside scopes es (f <$> x) R := by
  rw [← List.append_nil es]
  exact h.bind fun xs a ha => .pure (by rw [List.append_nil]; exact k xs a ha)

/-- what comes of the result alone -/
theorem Follows.give {f : α → β} (h : Follows s vs outside scopes es x P) (k : ∀ xs a, P xs a → R xs (f a)) :
    Follows s vs outside scopes es (x >>= fun a => Pure.pure (f a)) R :=
  h.map k

theorem Follows.get {f : LowerState → Lower β} (k : ∀ st, Follows s vs outside scopes es (f st) R) :
    Follows s vs outside scopes es ((MonadState.get : Lower LowerState) >>= f) R :=
  fun st env hst => k st st env hst

theorem Follows.lift {e : Except Fault α} {f : α → Lower β} (k : ∀ a, e = .ok a → Follows s vs outside scopes es (f a) R) :
    Follows s vs outside scopes es ((liftM e : Lower α) >>= f) R := by
  intro st env hst
  cases he : e with
  | error fault => trivial
  | ok a => exact k a he st env hst

theorem Follows.declare {v : VariableDecl} {d : Declared} (hv : v.Is s d) :
    Follows s vs outside scopes [.declare d] (Lower.declare v) fun xs _ => xs = [] := by
  intro st env hst
  obtain ⟨hm, hdrop⟩ := hst.declare (d := ⟨scopes, d⟩) hv
  exact ⟨hm, hdrop, rfl⟩

/-- what a scope holds is out of force after it -/
theorem Follows.inScope {n : Node} (h : Follows s vs outside (n :: scopes) es x P) :
    Follows s vs outside scopes [.scope n es] (Lower.inScope x) P := by
  intro st env hst
  have opened : LowerState.Mirrors s vs { st with scopes := [] :: st.scopes } env := ⟨hst.decls, hst.live⟩
  refine (h _ env opened).bind fun r ⟨hr, hdrop, hp⟩ => ?_
  have closed : r.2.scopes.drop 1 = st.scopes := hdrop
  refine ⟨⟨hr.decls, ?_⟩, congrArg (·.drop 1) closed, ?_⟩
  · exact (congrArg List.flatten closed).trans hst.live
  · rw [Event.seenIn, Event.seen, Event.seenIn, List.append_nil]
    exact hp

theorem Follows.mapM {γ : Type} {f : γ → Lower α} {g : γ → List Event} {names : α → List (String × Option VariableId)}
    {l : List γ} (hf : ∀ b ∈ l, Follows s vs outside scopes (g b) (f b) fun xs a => names a = xs) :
    Follows s vs outside scopes (l.flatMap g) (l.mapM f) fun xs as => as.flatMap names = xs := by
  induction l with
  | nil => exact .pure rfl
  | cons b l ih =>
    rw [List.mapM_cons, List.flatMap_cons]
    refine (hf b List.mem_cons_self).bind fun xs a ha => ?_
    refine (ih fun b hb => hf b (List.mem_cons_of_mem _ hb)).give fun ys as has => ?_
    rw [List.flatMap_cons, ha, has]

theorem Follows.forM {γ : Type} {f : γ → Lower PUnit} {g : γ → Event} {l : List γ}
    (hf : ∀ b ∈ l, Follows s vs outside scopes [g b] (f b) fun xs _ => xs = []) :
    Follows s vs outside scopes (l.map g) (l.forM f) fun xs _ => xs = [] := by
  induction l with
  | nil => exact .pure rfl
  | cons b l ih =>
    change Follows s vs outside scopes ([g b] ++ l.map g) (f b >>= fun _ => l.forM f) _
    refine (hf b List.mem_cons_self).bind fun xs _ hxs => ?_
    subst hxs
    exact ih fun b hb => hf b (List.mem_cons_of_mem _ hb)

/-- a name is bound to what the walk finds for it -/
theorem Follows.name (c : LowerContext) (name : String) (n : Node) :
    Follows s vs c.outside scopes [.use name n] (do return Expr.name name (c.lookup? (← MonadState.get) name)) fun xs e =>
      e.names = xs := by
  intro st env hst
  exact ⟨hst, rfl, congrArg (fun b => [b]) (hst.lookup? c ⟨scopes, name, n⟩)⟩

/-! ## Declarations -/

variable {c : LowerContext}

theorem Follows.declareParameters (hc : c.source = s) (n list : Node) :
    Follows s vs outside scopes (Trace.parameters s n list) (Lower.declareParameters c list) fun xs _ => xs = [] := by
  subst hc
  exact .forM fun p _ => .declare ⟨rfl, rfl, rfl⟩

theorem Follows.declareUntyped (hc : c.source = s) (name location : Node) (since : Nat) :
    Follows s vs outside scopes [.declare ⟨s.textOf name, .local, location, since⟩]
      (Lower.declareUntyped c name location) fun xs _ => xs = [] := by
  subst hc
  exact .declare ⟨rfl, rfl, rfl⟩

end Lower

end CallLint
