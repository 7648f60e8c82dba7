/-
The walk over call sites and the list of calls agree: a visitor sees the calls of the list one after the other, until it
stops. So what a walk computes is a matter of lists:
- `walkList_eq_over`: a walk over expressions is the visitor run over `listCalls`;
- `visitedCalls_eq`, `calls_eq`, `matching_eq`: the calls that a walk visits are those of the list, in expressions and in a
  whole unit.
-/
import CallLint.Unit.Walk

namespace CallLint

namespace Flow

@[simp] theorem go_andThen {σ β : Type} (s : σ) (next : σ → Flow σ β) : (go s).andThen next = next s := rfl

@[simp] theorem stop_andThen {σ β : Type} (b : β) (s : σ) (next : σ → Flow σ β) :
    (stop b s).andThen next = stop b s := rfl

@[simp] theorem andThen_go {σ β : Type} (f : Flow σ β) : f.andThen go = f := by
  cases f <;> rfl

theorem andThen_assoc {σ β : Type} (f : Flow σ β) (g h : σ → Flow σ β) :
    (f.andThen g).andThen h = f.andThen fun s => (g s).andThen h := by
  cases f <;> rfl

end Flow

/-! ## A visitor over a list -/

/-- one call after the other, until the visitor stops -/
def Visitor.over {σ β : Type} (visit : Visitor σ β) : List (Call Expr) → σ → Flow σ β
  | [], s => .go s
  | c :: cs, s => (visit c s).andThen (Visitor.over visit cs)

@[simp] theorem Visitor.over_nil {σ β : Type} (visit : Visitor σ β) (s : σ) : visit.over [] s = .go s := rfl

@[simp] theorem Visitor.over_cons {σ β : Type} (visit : Visitor σ β) (c : Call Expr) (cs : List (Call Expr)) (s : σ) :
    visit.over (c :: cs) s = (visit c s).andThen (visit.over cs) := rfl

theorem Visitor.over_append {σ β : Type} (visit : Visitor σ β) (cs ds : List (Call Expr)) (s : σ) :
    visit.over (cs ++ ds) s = (visit.over cs s).andThen (visit.over ds) := by
  induction cs generalizing s with
  | nil => rfl
  | cons c cs ih =>
    simp only [List.cons_append, over_cons, Flow.andThen_assoc]
    congr 1
    funext t
    exact ih t

/-- a visitor that never stops folds over the calls -/
theorem Visitor.over_go {σ β : Type} (f : σ → Call Expr → σ) (cs : List (Call Expr)) (s : σ) :
    Visitor.over (β := β) (fun c s => .go (f s c)) cs s = .go (cs.foldl f s) := by
  induction cs generalizing s with
  | nil => rfl
  | cons c cs ih => exact ih (f s c)

/-! ## Walks are runs over the list of calls -/

mutual

theorem Expr.walk_eq_over {σ β : Type} (visit : Visitor σ β) :
    ∀ (e : Expr) (s : σ), e.walk visit s = visit.over e.calls s
  | .literal _, s => rfl
  | .name _ _, s => rfl
  | .fieldAccess target _ _, s => Expr.walk_eq_over visit target s
  | .binary _ left right, s => by
    rw [Expr.walk, Expr.calls, visit.over_append, Expr.walk_eq_over visit left s]
    congr 1
    funext t
    exact Expr.walk_eq_over visit right t
  | .call c, s => walkCall_eq_over visit c s
  | .other _ children, s => walkList_eq_over visit children s
termination_by structural e => e

theorem walkCall_eq_over {σ β : Type} (visit : Visitor σ β) :
    ∀ (c : Call Expr) (s : σ), walkCall visit c s = visit.over (callCalls c) s
  | ⟨name, owner, receiver, arguments, body, target, nameSpan, span⟩, s => by
    rw [walkCall, callCalls, visit.over_cons]
    congr 1
    funext t
    rw [List.append_assoc, visit.over_append, walkOption_eq_over visit receiver t]
    congr 1
    funext t
    rw [visit.over_append, walkList_eq_over visit arguments t]
    congr 1
    funext t
    exact walkList_eq_over visit body t
termination_by structural c => c

theorem walkOption_eq_over {σ β : Type} (visit : Visitor σ β) :
    ∀ (o : Option Expr) (s : σ), walkOption visit o s = visit.over (optionCalls o) s
  | none, _ => rfl
  | some e, s => Expr.walk_eq_over visit e s
termination_by structural o => o

/-- **A walk is a run over the list of calls.** -/
theorem walkList_eq_over {σ β : Type} (visit : Visitor σ β) :
    ∀ (es : List Expr) (s : σ), walkList visit es s = visit.over (listCalls es) s
  | [], _ => rfl
  | e :: es, s => by
    rw [walkList, listCalls, visit.over_append, Expr.walk_eq_over visit e s]
    congr 1
    funext t
    exact walkList_eq_over visit es t
termination_by structural es => es

end

theorem listCalls_eq_flatMap (es : List Expr) : listCalls es = es.flatMap Expr.calls := by
  induction es with
  | nil => rfl
  | cons e es ih => rw [listCalls, List.flatMap_cons, ih]

theorem mem_listCalls {call : Call Expr} {es : List Expr} : call ∈ listCalls es ↔ ∃ e ∈ es, call ∈ e.calls := by
  rw [listCalls_eq_flatMap, List.mem_flatMap]

theorem listCalls_append (es fs : List Expr) : listCalls (es ++ fs) = listCalls es ++ listCalls fs := by
  simp only [listCalls_eq_flatMap, List.flatMap_append]

/-- the calls that a walk visits when nothing stops it, in the order of the visits -/
def visitedCalls (es : List Expr) : List (Call Expr) :=
  (walkList (β := Empty) (fun c cs => .go (c :: cs)) es []).state.reverse

theorem visitedCalls_eq (es : List Expr) : visitedCalls es = listCalls es := by
  rw [visitedCalls, walkList_eq_over, Visitor.over_go, Flow.state, List.foldl_flip_cons_eq_append', List.append_nil,
    List.reverse_reverse]

/-! ## The calls of a unit -/

namespace CompilationUnit

theorem foldl_walkList {σ β : Type} (visit : Visitor σ β) (roots : List (List Expr)) (flow : Flow σ β) :
    roots.foldl (fun flow root => flow.andThen (walkList visit root)) flow =
      flow.andThen (visit.over (roots.flatMap listCalls)) := by
  induction roots generalizing flow with
  | nil => exact (flow.andThen_go).symm
  | cons root roots ih =>
    simp only [List.foldl_cons, List.flatMap_cons, ih, Flow.andThen_assoc]
    congr 1
    funext t
    rw [walkList_eq_over, visit.over_append]

/-- a walk over a unit is a run over the calls of its roots, in the order of the roots -/
theorem walk_eq_over {σ β : Type} (u : CompilationUnit) (visit : Visitor σ β) (s : σ) :
    u.walk visit s = visit.over (u.roots.flatMap listCalls) s := by
  rw [walk, foldl_walkList, Flow.go_andThen]

theorem calls_eq (u : CompilationUnit) : u.calls = u.roots.flatMap listCalls := by
  rw [calls, walk_eq_over, Visitor.over_go, Flow.state, List.foldl_flip_cons_eq_append', List.append_nil,
    List.reverse_reverse]

/-- a callback at each matching call is called at these calls of the list, one after the other -/
theorem walk_matching {σ β : Type} (u : CompilationUnit) (catalog : Catalog) (f : σ → Call Expr → σ) (s : σ) :
    u.walk (β := β) (fun c s => .go (if catalog.covers c.site then f s c else s)) s =
      .go (((u.roots.flatMap listCalls).filter fun c => catalog.covers c.site).foldl f s) := by
  rw [walk_eq_over, Visitor.over_go, List.foldl_filter]

theorem matching_eq (u : CompilationUnit) (catalog : Catalog) :
    u.matching catalog = (u.roots.flatMap listCalls).filter fun c => catalog.covers c.site := by
  rw [matching, walk_matching, Flow.state, List.foldl_flip_cons_eq_append', List.append_nil, List.reverse_reverse]

/-! ## Roots in their order -/

/-- the code of a variable, if it is a field with an initializer -/
def fieldRoot? (v : VariableDecl) : Option (Nat × List Expr) :=
  if v.kind == .field then v.initializer.map fun init => (v.span.startByte, [init]) else none

theorem fieldRoots_eq (u : CompilationUnit) : u.fieldRoots = u.variableDecls.toList.filterMap fieldRoot? := by
  rw [fieldRoots, List.filterMap_filter]
  rfl

/-- all bodies of code with the bytes at which they start -/
def unsortedRoots (u : CompilationUnit) : List (Nat × List Expr) :=
  u.methodRoots ++ u.fieldRoots ++ u.blockRoots

/-- the roots in their order, still with their starts -/
def sortedRoots (u : CompilationUnit) : List (Nat × List Expr) :=
  u.unsortedRoots.mergeSort fun a b => a.1 ≤ b.1

theorem sortedRoots_sorted (u : CompilationUnit) : u.sortedRoots.Pairwise fun a b => a.1 ≤ b.1 := by
  have h : u.sortedRoots.Pairwise fun a b => decide (a.1 ≤ b.1) :=
    List.pairwise_mergeSort (fun a b c => by simpa using Nat.le_trans) (fun a b => by simpa using Nat.le_total a.1 b.1)
      u.unsortedRoots
  exact h.imp fun h => by simpa using h

theorem sortedRoots_perm (u : CompilationUnit) : u.sortedRoots.Perm u.unsortedRoots :=
  List.mergeSort_perm _ _

end CompilationUnit

end CallLint
