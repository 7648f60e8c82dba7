/-
Which calls a walk visits and when. A call stands at a place: the body of code that holds it, and in it the numbers of the
expressions on the way down, so that places in their lexicographic order are calls in pre-order.
- `over_eq_go`, `over_eq_stop`: a visitor sees calls one after the other, up to the first at which it stops;
- `listCalls_enumerated`: the list of calls has each place once, in the order of the places;
- `roots_enumerated`: the bodies of code are visited by their starts, and those of one start in the order of the unit;
- `visits_in_order`: what follows for whole units, for the calls that match a catalog and for the findings of S1523.
-/
import Mathlib.Data.List.Basic
import CallLint.Proofs.Traversal
import CallLint.Rule.Basic

namespace CallLint

/-! ## Visitors that go on and visitors that stop -/

namespace Visitor

variable {σ β : Type}

/-- the visitor goes on at each of the calls, from one state to another -/
inductive GoesOn (visit : Visitor σ β) : List (Call Expr) → σ → σ → Prop
  | nil (s : σ) : GoesOn visit [] s s
  | cons {c : Call Expr} {cs : List (Call Expr)} {s t r : σ} :
    visit c s = .go t → GoesOn visit cs t r → GoesOn visit (c :: cs) s r

theorem over_eq_go {visit : Visitor σ β} {cs : List (Call Expr)} {s t : σ} :
    visit.over cs s = .go t ↔ visit.GoesOn cs s t := by
  constructor
  · intro h
    induction cs generalizing s with
    | nil =>
      obtain rfl : s = t := by simpa using h
      exact .nil s
    | cons c cs ih =>
      rw [over_cons] at h
      cases hc : visit c s with
      | go r => exact .cons hc (ih (by rwa [hc] at h))
      | stop b r => rw [hc] at h; cases h
  · intro h
    induction h with
    | nil s => rfl
    | cons hc _ ih => rw [over_cons, hc, Flow.go_andThen, ih]

/-- a visitor stops at the first call at which it does not go on, and sees none of those that follow -/
theorem over_eq_stop {visit : Visitor σ β} {cs : List (Call Expr)} {s t : σ} {b : β} :
    visit.over cs s = .stop b t ↔
      ∃ before c after r, cs = before ++ c :: after ∧ visit.GoesOn before s r ∧ visit c r = .stop b t := by
  constructor
  · intro h
    induction cs generalizing s with
    | nil => cases h
    | cons c cs ih =>
      rw [over_cons] at h
      cases hc : visit c s with
      | go r =>
        rw [hc] at h
        obtain ⟨before, d, after, q, rfl, hgo, hstop⟩ := ih h
        exact ⟨c :: before, d, after, q, rfl, .cons hc hgo, hstop⟩
      | stop a r =>
        rw [hc] at h
        exact ⟨[], c, cs, s, rfl, .nil s, hc.trans h⟩
  · rintro ⟨before, c, after, r, rfl, hgo, hstop⟩
    rw [over_append, over_eq_go.2 hgo, Flow.go_andThen, over_cons, hstop, Flow.stop_andThen]

end Visitor

/-! ## Lists in an order -/

/-- the list has exactly what is asked for, in a strict order and so without repetition -/
structure Enumerates {α : Type} (before : α → α → Prop) (wanted : α → Prop) (xs : List α) : Prop where
  ordered : xs.Pairwise before
  mem : ∀ x, x ∈ xs ↔ wanted x

namespace Enumerates

variable {α β : Type} {before : α → α → Prop} {wanted : α → Prop} {xs : List α}

/-- what is asked for in addition leaves the rest in its order -/
theorem filter (h : Enumerates before wanted xs) (p : α → Bool) :
    Enumerates before (fun x => wanted x ∧ p x) (xs.filter p) where
  ordered := h.ordered.filter p
  mem x := by rw [List.mem_filter, h.mem]

theorem map {f : α → β} {before' : β → β → Prop} {wanted' : β → Prop} (h : Enumerates before wanted xs)
    (hb : ∀ a b, before a b → before' (f a) (f b)) (hw : ∀ y, wanted' y ↔ ∃ x, wanted x ∧ f x = y) :
    Enumerates before' wanted' (xs.map f) where
  ordered := List.pairwise_map.2 (h.ordered.imp fun hab => hb _ _ hab)
  mem y := by simp only [List.mem_map, h.mem, hw]

theorem filterMap {f : α → Option β} {before' : β → β → Prop} {wanted' : β → Prop} (h : Enumerates before wanted xs)
    (hb : ∀ a b, before a b → ∀ a' ∈ f a, ∀ b' ∈ f b, before' a' b')
    (hw : ∀ y, wanted' y ↔ ∃ x, wanted x ∧ f x = some y) : Enumerates before' wanted' (xs.filterMap f) where
  ordered := List.pairwise_filterMap.2 (h.ordered.imp fun hab => hb _ _ hab)
  mem y := by simp only [List.mem_filterMap, h.mem, hw]

theorem append {wanted' : α → Prop} {ys : List α} (hx : Enumerates before wanted xs) (hy : Enumerates before wanted' ys)
    (hb : ∀ x y, wanted x → wanted' y → before x y) : Enumerates before (fun x => wanted x ∨ wanted' x) (xs ++ ys) where
  ordered := List.pairwise_append.2
    ⟨hx.ordered, hy.ordered, fun x h y h' => hb x y ((hx.mem x).1 h) ((hy.mem y).1 h')⟩
  mem x := by rw [List.mem_append, hx.mem, hy.mem]

/-- pairs in lexicographic order -/
theorem nest {inner : β → β → Prop} {wanted' : α → β → Prop} (h : Enumerates before wanted xs) {f : α → List β}
    (hf : ∀ x, wanted x → Enumerates inner (wanted' x) (f x)) :
    Enumerates (fun a b : α × β => before a.1 b.1 ∨ a.1 = b.1 ∧ inner a.2 b.2) (fun a => wanted a.1 ∧ wanted' a.1 a.2)
      (xs.flatMap fun x => (f x).map (Prod.mk x)) where
  ordered := by
    refine List.pairwise_flatMap.2 ⟨fun x hx => ?_, h.ordered.imp fun {a b} hab => ?_⟩
    · exact List.pairwise_map.2 ((hf x ((h.mem x).1 hx)).ordered.imp fun hab => .inr ⟨rfl, hab⟩)
    · simp only [List.mem_map]
      rintro _ ⟨y, -, rfl⟩ _ ⟨z, -, rfl⟩
      exact .inl hab
  mem a := by
    simp only [List.mem_flatMap, List.mem_map, h.mem]
    constructor
    · rintro ⟨x, hx, y, hy, rfl⟩
      exact ⟨hx, ((hf x hx).mem y).1 hy⟩
    · rintro ⟨hx, hy⟩
      exact ⟨a.1, hx, a.2, ((hf a.1 hx).mem a.2).2 hy, rfl⟩

/-- the members of a list with their indices -/
theorem zipIdx (l : List α) :
    Enumerates (fun a b : α × Nat => a.2 < b.2) (fun a => l[a.2]? = some a.1) l.zipIdx where
  ordered := by
    have h : (l.zipIdx.map (·.2)).Pairwise (· < ·) := by
      rw [List.zipIdx_map_snd]
      exact List.pairwise_lt_range'
    exact List.pairwise_map.1 h
  mem _ := List.mem_zipIdx_iff_getElem?

/-- members of one key keep their order when a list is sorted -/
theorem mergeSort_filter (key : α → Nat) (k : Nat) (xs : List α) :
    (xs.mergeSort fun a b => key a ≤ key b).filter (fun a => key a = k) = xs.filter fun a => key a = k := by
  have sublist : (xs.filter fun a => key a = k).Sublist (xs.mergeSort fun a b => key a ≤ key b) := by
    refine List.sublist_mergeSort (fun a b c => by simpa using Nat.le_trans)
      (fun a b => by simpa using Nat.le_total (key a) (key b)) ?_ List.filter_sublist
    refine List.pairwise_of_forall_mem_list fun a ha b hb => ?_
    have ha : key a = k := by simpa using (List.mem_filter.1 ha).2
    have hb : key b = k := by simpa using (List.mem_filter.1 hb).2
    simp [ha, hb]
  have filtered := sublist.filter fun a => key a = k
  simp only [List.filter_filter, Bool.and_self] at filtered
  exact (filtered.eq_of_length_le (Nat.le_of_eq ((List.mergeSort_perm _ _).filter _).length_eq)).symm

/-- a list sorted by a key: by the key, then as before -/
theorem mergeSort (h : Enumerates before wanted xs) (key : α → Nat) :
    Enumerates (fun a b => key a < key b ∨ key a = key b ∧ before a b) wanted
      (xs.mergeSort fun a b => key a ≤ key b) where
  ordered := by
    have sorted : (xs.mergeSort fun a b => key a ≤ key b).Pairwise fun a b => decide (key a ≤ key b) :=
      List.pairwise_mergeSort (fun a b c => by simpa using Nat.le_trans)
        (fun a b => by simpa using Nat.le_total (key a) (key b)) xs
    refine List.pairwise_iff_forall_sublist.2 fun {a b} hab => ?_
    have hle : key a ≤ key b := by simpa using List.pairwise_iff_forall_sublist.1 sorted hab
    refine (Nat.lt_or_eq_of_le hle).imp_right fun heq => ⟨heq, ?_⟩
    -- two of one key stand in the same order in the list as it was
    have same : [a, b].Sublist (xs.filter fun x => key x = key b) := by
      rw [← mergeSort_filter]
      simpa [heq] using hab.filter fun x => key x = key b
    exact List.pairwise_iff_forall_sublist.1 h.ordered (same.trans List.filter_sublist)
  mem x := by rw [List.mem_mergeSort, h.mem]

end Enumerates

/-! ## Places of calls -/

/-- the expressions right inside an expression, in the order of their visits -/
def Expr.parts : Expr → List Expr
  | .literal _ => []
  | .name _ _ => []
  | .fieldAccess target _ _ => [target]
  | .binary _ left right => [left, right]
  | .call c => c.receiver.toList ++ c.arguments ++ c.anonymousBody
  | .other _ children => children

/-- the call at a place in an expression: the numbers of the parts on the way down to it -/
inductive Expr.CallAt : Expr → List Nat → Call Expr → Prop
  | here (c : Call Expr) : CallAt (.call c) [] c
  | inside {e x : Expr} {i : Nat} {place : List Nat} {c : Call Expr} :
    e.parts[i]? = some x → CallAt x place c → CallAt e (i :: place) c

/-- the call at a place in a body of code -/
inductive CallIn (es : List Expr) : List Nat → Call Expr → Prop
  | mk {e : Expr} {i : Nat} {place : List Nat} {c : Call Expr} :
    es[i]? = some e → e.CallAt place c → CallIn es (i :: place) c

/-- by their places: a call before all that stands in it, and what stands in one part before the parts that follow -/
def ByPlace (a b : List Nat × Call Expr) : Prop := a.1 < b.1

theorem listCalls_toList (o : Option Expr) : listCalls o.toList = optionCalls o := by
  cases o with
  | none => rfl
  | some e => exact List.append_nil _

/-- the calls of an expression: itself, then those of its parts -/
theorem Expr.calls_eq_parts (e : Expr) : e.calls = e.call?.toList ++ listCalls e.parts := by
  cases e with
  | literal _ => rfl
  | name _ _ => rfl
  | fieldAccess target _ _ => exact (List.append_nil _).symm
  | binary _ left right => simp [calls, parts, listCalls, call?]
  | call c =>
    obtain ⟨_, _, receiver, arguments, body, _, _, _⟩ := c
    simp only [parts, listCalls_append, listCalls_toList]
    rfl
  | other _ children => rfl

theorem Expr.sizeOf_of_mem_parts {e x : Expr} (h : x ∈ e.parts) : sizeOf x < sizeOf e := by
  cases e with
  | literal _ => cases h
  | name _ _ => cases h
  | fieldAccess target _ _ =>
    obtain rfl := List.mem_singleton.1 h
    simp; omega
  | binary _ left right =>
    simp only [parts, List.mem_cons, List.not_mem_nil, or_false] at h
    rw [binary.sizeOf_spec]
    rcases h with rfl | rfl
    · omega
    · omega
  | call c =>
    obtain ⟨name, owner, receiver, arguments, body, target, nameSpan, span⟩ := c
    simp only [parts, List.mem_append, Option.mem_toList] at h
    rcases h with (rfl | h) | h
    · simp; omega
    · have := List.sizeOf_lt_of_mem h
      simp; omega
    · have := List.sizeOf_lt_of_mem h
      simp; omega
  | other _ children =>
    have := List.sizeOf_lt_of_mem h
    simp [parts] at this ⊢; omega

/-- the calls of a list of expressions, when those of each expression are enumerated -/
theorem listCalls_of_each (es : List Expr)
    (h : ∀ e ∈ es, ∃ ps, Enumerates ByPlace (fun p => e.CallAt p.1 p.2) ps ∧ ps.map (·.2) = e.calls) :
    ∃ ps, Enumerates ByPlace (fun p => CallIn es p.1 p.2) ps ∧ ps.map (·.2) = listCalls es := by
  choose! f hf using h
  have each (x : Expr × Nat) (hx : es[x.2]? = some x.1) :
      Enumerates ByPlace (fun p => x.1.CallAt p.1 p.2) (f x.1) := (hf x.1 (List.mem_of_getElem? hx)).1
  refine ⟨_, ((Enumerates.zipIdx es).nest each).map (f := fun a => (a.1.2 :: a.2.1, a.2.2)) ?_ ?_, ?_⟩
  · rintro ⟨⟨e, i⟩, p, c⟩ ⟨⟨e', i'⟩, p', c'⟩ (hlt | ⟨heq, hlt⟩)
    · exact List.cons_lt_cons_iff.2 (.inl hlt)
    · cases heq
      exact List.cons_lt_cons_iff.2 (.inr ⟨rfl, hlt⟩)
  · rintro ⟨place, c⟩
    constructor
    · rintro ⟨he, hc⟩
      exact ⟨((_, _), _, _), ⟨he, hc⟩, rfl⟩
    · rintro ⟨⟨⟨e, i⟩, p, d⟩, ⟨he, hc⟩, heq⟩
      cases heq
      exact .mk he hc
  · have calls : (es.zipIdx.map (·.1)).flatMap (fun e => (f e).map (·.2)) = es.flatMap Expr.calls := by
      rw [List.zipIdx_map_fst]
      exact List.flatMap_congr fun e he => (hf e he).2
    simp only [List.map_map, List.map_flatMap]
    rw [listCalls_eq_flatMap, ← calls, List.flatMap_map]
    rfl

/-- **The calls of an expression are in pre-order**, each with a place of its own. -/
theorem Expr.calls_enumerated (e : Expr) :
    ∃ ps, Enumerates ByPlace (fun p => e.CallAt p.1 p.2) ps ∧ ps.map (·.2) = e.calls := by
  obtain ⟨ps, hps, hmap⟩ := listCalls_of_each e.parts fun x _ => x.calls_enumerated
  refine ⟨e.call?.toList.map (Prod.mk []) ++ ps, ⟨?_, ?_⟩, ?_⟩
  · refine List.pairwise_append.2 ⟨?_, hps.ordered, ?_⟩
    · cases e.call? <;> simp
    · rintro ⟨_, c⟩ hc ⟨place, d⟩ hd
      obtain ⟨-, rfl⟩ : _ ∧ [] = _ := by simpa using hc
      obtain ⟨_, _⟩ := (hps.mem _).1 hd
      exact List.nil_lt_cons ..
  · rintro ⟨place, c⟩
    rw [List.mem_append, hps.mem]
    constructor
    · rintro (hc | ⟨hx, hc⟩)
      · cases e with
        | call d =>
          obtain ⟨rfl, rfl⟩ : place = [] ∧ c = d := by simpa [call?] using hc
          exact .here c
        | _ => cases hc
      · exact .inside hx hc
    · rintro (_ | ⟨hx, hc⟩)
      · exact .inl (List.mem_singleton.2 rfl)
      · exact .inr (.mk hx hc)
  · rw [calls_eq_parts, List.map_append, hmap, List.map_map]
    congr 1
    cases e.call? <;> rfl
termination_by sizeOf e
decreasing_by exact sizeOf_of_mem_parts ‹_›

theorem listCalls_enumerated (es : List Expr) :
    ∃ ps, Enumerates ByPlace (fun p => CallIn es p.1 p.2) ps ∧ ps.map (·.2) = listCalls es :=
  listCalls_of_each es fun e _ => e.calls_enumerated

/-! ## Places of bodies -/

inductive RootKind where
  | method
  | field
  | block
deriving DecidableEq, Repr

/-- methods before fields before blocks -/
def RootKind.rank : RootKind → Nat
  | method => 0
  | field => 1
  | block => 2

/-- where a unit keeps a body of code: the byte at which it starts, and its index in one of the unit's lists -/
structure RootPlace where
  start : Nat
  kind : RootKind
  index : Nat
deriving DecidableEq, Repr

namespace RootPlace

/-- by kind, then as the unit lists them -/
def Listed (a b : RootPlace) : Prop :=
  a.kind.rank < b.kind.rank ∨ a.kind = b.kind ∧ a.index < b.index

/-- by their starts; of one start as they are listed -/
def Before (a b : RootPlace) : Prop :=
  a.start < b.start ∨ a.start = b.start ∧ a.Listed b

end RootPlace

namespace CompilationUnit

/-- what the unit runs at a place: the body of a method, the initializer of a field or an initializer block -/
inductive RootAt (u : CompilationUnit) : RootPlace → List Expr → Prop
  | method {i : Nat} {m : MethodDecl} {body : List Expr} :
    u.methods[i]? = some m → m.body = some body → RootAt u ⟨m.span.startByte, .method, i⟩ body
  | field {i : Nat} {v : VariableDecl} {init : Expr} :
    u.variableDecls[i]? = some v → v.kind = .field → v.initializer = some init →
      RootAt u ⟨v.span.startByte, .field, i⟩ [init]
  | block {i : Nat} {b : InitializerBlock} :
    u.blocks[i]? = some b → RootAt u ⟨b.span.startByte, .block, i⟩ b.body

/-- the bodies of one kind with their places -/
def placedRoots {α : Type} (kind : RootKind) (xs : List α) (root? : α → Option (Nat × List Expr)) :
    List (RootPlace × List Expr) :=
  xs.zipIdx.filterMap fun x => (root? x.1).map fun root => (⟨root.1, kind, x.2⟩, root.2)

theorem placedRoots_map {α : Type} (kind : RootKind) (xs : List α) (root? : α → Option (Nat × List Expr)) :
    (placedRoots kind xs root?).map (fun r => (r.1.start, r.2)) = xs.filterMap root? := by
  have unplaced (x : α × Nat) : ((root? x.1).map fun root => ((⟨root.1, kind, x.2⟩ : RootPlace), root.2)).map
      (fun r => (r.1.start, r.2)) = root? x.1 := by
    cases root? x.1 <;> rfl
  rw [placedRoots, List.map_filterMap]
  simp only [unplaced]
  rw [← Function.comp_def, ← List.filterMap_map, List.zipIdx_map_fst]

theorem placedRoots_enumerated {α : Type} (kind : RootKind) (xs : List α) (root? : α → Option (Nat × List Expr)) :
    Enumerates (fun a b => a.1.Listed b.1)
      (fun r => r.1.kind = kind ∧ ∃ x, xs[r.1.index]? = some x ∧ root? x = some (r.1.start, r.2))
      (placedRoots kind xs root?) := by
  refine (Enumerates.zipIdx xs).filterMap ?_ ?_
  · rintro ⟨x, i⟩ ⟨y, j⟩ hij a ha b hb
    obtain ⟨_, -, rfl⟩ := Option.map_eq_some_iff.1 ha
    obtain ⟨_, -, rfl⟩ := Option.map_eq_some_iff.1 hb
    exact .inr ⟨rfl, hij⟩
  · rintro ⟨⟨start, kind', i⟩, body⟩
    constructor
    · rintro ⟨rfl, x, hx, hr⟩
      exact ⟨(x, i), hx, by simp [hr]⟩
    · rintro ⟨⟨x, j⟩, hx, hr⟩
      obtain ⟨root, hroot, heq⟩ := Option.map_eq_some_iff.1 hr
      cases heq
      exact ⟨rfl, x, hx, hroot⟩

/-- the code of a method that has a body -/
def methodRoot? (m : MethodDecl) : Option (Nat × List Expr) :=
  m.body.map fun body => (m.span.startByte, body)

/-- the code of an initializer block -/
def blockRoot? (b : InitializerBlock) : Option (Nat × List Expr) :=
  some (b.span.startByte, b.body)

theorem rootAt_iff {u : CompilationUnit} {p : RootPlace} {es : List Expr} :
    u.RootAt p es ↔
      ((p.kind = .method ∧ ∃ m, u.methods.toList[p.index]? = some m ∧ methodRoot? m = some (p.start, es)) ∨
        (p.kind = .field ∧ ∃ v, u.variableDecls.toList[p.index]? = some v ∧ fieldRoot? v = some (p.start, es))) ∨
      (p.kind = .block ∧ ∃ b, u.blocks[p.index]? = some b ∧ blockRoot? b = some (p.start, es)) := by
  obtain ⟨start, kind, i⟩ := p
  constructor
  · rintro (⟨hm, hbody⟩ | ⟨hv, hkind, hinit⟩ | hb)
    · exact .inl (.inl ⟨rfl, _, by simpa using hm, by simp [methodRoot?, hbody]⟩)
    · exact .inl (.inr ⟨rfl, _, by simpa using hv, by simp [fieldRoot?, hkind, hinit]⟩)
    · exact .inr ⟨rfl, _, hb, rfl⟩
  · rintro ((⟨rfl, m, hm, hr⟩ | ⟨rfl, v, hv, hr⟩) | ⟨rfl, b, hb, hr⟩)
    · obtain ⟨body, hbody, heq⟩ := Option.map_eq_some_iff.1 hr
      cases heq
      exact .method (by simpa using hm) hbody
    · rw [fieldRoot?] at hr
      split at hr
      case isFalse => cases hr
      case isTrue hkind =>
        obtain ⟨init, hinit, heq⟩ := Option.map_eq_some_iff.1 hr
        cases heq
        exact .field (by simpa using hv) (by simpa using hkind) hinit
    · cases hr
      exact .block hb

/-- every body with its place: methods, then fields, then blocks, as the unit lists them -/
def listedRoots (u : CompilationUnit) : List (RootPlace × List Expr) :=
  placedRoots .method u.methods.toList methodRoot? ++ placedRoots .field u.variableDecls.toList fieldRoot? ++
    placedRoots .block u.blocks blockRoot?

theorem listedRoots_map (u : CompilationUnit) : u.listedRoots.map (fun r => (r.1.start, r.2)) = u.unsortedRoots := by
  simp only [listedRoots, List.map_append, placedRoots_map]
  rw [unsortedRoots, fieldRoots_eq, blockRoots, ← List.filterMap_eq_map']
  rfl

theorem listedRoots_enumerated (u : CompilationUnit) :
    Enumerates (fun a b => a.1.Listed b.1) (fun r => u.RootAt r.1 r.2) u.listedRoots := by
  have methods := placedRoots_enumerated .method u.methods.toList methodRoot?
  have fields := placedRoots_enumerated .field u.variableDecls.toList fieldRoot?
  have blocks := placedRoots_enumerated .block u.blocks blockRoot?
  have all := (methods.append fields fun r r' hr hr' => ?_).append blocks fun r r' hr hr' => ?_
  · exact ⟨all.ordered, fun r => (all.mem r).trans rootAt_iff.symm⟩
  · exact .inl (by simp [hr.1, hr'.1, RootKind.rank])
  · rcases hr with hr | hr <;> exact .inl (by simp [hr.1, hr'.1, RootKind.rank])

/-- **Bodies are visited in the order of their places**, each once. -/
theorem roots_enumerated (u : CompilationUnit) :
    ∃ rs : List (RootPlace × List Expr),
      Enumerates (fun a b => a.1.Before b.1) (fun r => u.RootAt r.1 r.2) rs ∧ u.roots = rs.map (·.2) := by
  refine ⟨_, u.listedRoots_enumerated.mergeSort fun r => r.1.start, ?_⟩
  have sorted : (u.listedRoots.mergeSort fun a b => a.1.start ≤ b.1.start).map (fun r => (r.1.start, r.2)) =
      u.sortedRoots := by
    rw [sortedRoots, ← listedRoots_map]
    exact List.map_mergeSort fun _ _ _ _ => rfl
  have roots : u.roots = u.sortedRoots.map (·.2) := rfl
  rw [roots, ← sorted, List.map_map]
  rfl

/-! ## Occurrences in a unit -/

/-- a call where a unit runs it -/
structure Occurrence where
  root : RootPlace
  place : List Nat
  call : Call Expr

/-- by the bodies that hold them; in one body by their places -/
def Occurrence.Before (a b : Occurrence) : Prop :=
  a.root.Before b.root ∨ a.root = b.root ∧ a.place < b.place

/-- the call stands at this place in this body of the unit -/
def Runs (u : CompilationUnit) (o : Occurrence) : Prop :=
  ∃ es, u.RootAt o.root es ∧ CallIn es o.place o.call

/-- **The calls of a unit**: every occurrence once, in the order of the occurrences. -/
theorem calls_enumerated (u : CompilationUnit) :
    ∃ os, Enumerates Occurrence.Before u.Runs os ∧ os.map (·.call) = u.roots.flatMap listCalls := by
  obtain ⟨rs, hrs, hroots⟩ := u.roots_enumerated
  choose f hf hcalls using listCalls_enumerated
  refine ⟨_, (hrs.nest fun r _ => hf r.2).map (f := fun a => ⟨a.1.1, a.2.1, a.2.2⟩) ?_ ?_, ?_⟩
  · rintro ⟨⟨p, es⟩, place, c⟩ ⟨⟨p', es'⟩, place', c'⟩ (hlt | ⟨heq, hlt⟩)
    · exact .inl hlt
    · cases heq
      exact .inr ⟨rfl, hlt⟩
  · rintro ⟨p, place, c⟩
    constructor
    · rintro ⟨es, hes, hc⟩
      exact ⟨((p, es), place, c), ⟨hes, hc⟩, rfl⟩
    · rintro ⟨⟨⟨p, es⟩, place, c⟩, ⟨hes, hc⟩, heq⟩
      cases heq
      exact ⟨es, hes, hc⟩
  · rw [hroots, List.flatMap_map]
    simp only [List.map_map, List.map_flatMap]
    exact List.flatMap_congr fun r _ => hcalls r.2

/-- the calls that match a catalog, and the matching calls among them of which more is asked -/
theorem matching_enumerated (u : CompilationUnit) (catalog : Catalog) :
    ∃ os, Enumerates Occurrence.Before (fun o => u.Runs o ∧ catalog.covers o.call.site) os ∧
      os.map (·.call) = (u.roots.flatMap listCalls).filter fun c => catalog.covers c.site := by
  obtain ⟨os, hos, hcalls⟩ := u.calls_enumerated
  refine ⟨_, hos.filter fun o => catalog.covers o.call.site, ?_⟩
  rw [← hcalls, List.filter_map]
  rfl

/-- the name that a call looks up is not known: there is no first argument, or it has no constant value -/
theorem not_hasConstantName {u : CompilationUnit} {c : Call Expr} :
    (!DynamicCode.hasConstantName u c) = true ↔ ∀ name, c.arguments.head? = some name → u.constant? name = none := by
  rw [DynamicCode.hasConstantName]
  cases c.arguments <;> simp

/-- **A walk visits each call once and in its order**, up to the first at which the visitor stops; a callback at the
calls that match a catalog is called once for each of them, and S1523 reports each of its calls without a known name. -/
theorem visits_in_order {σ β : Type} (visit : Visitor σ β) (es : List Expr) (s : σ) (u : CompilationUnit)
    (catalog : Catalog) :
    (∃ ps, Enumerates ByPlace (fun p => CallIn es p.1 p.2) ps ∧ ps.map (·.2) = listCalls es) ∧
    (∀ t, walkList visit es s = .go t ↔ visit.GoesOn (listCalls es) s t) ∧
    (∀ b t, walkList visit es s = .stop b t ↔
      ∃ before c after r, listCalls es = before ++ c :: after ∧ visit.GoesOn before s r ∧ visit c r = .stop b t) ∧
    (∃ os, Enumerates Occurrence.Before (fun o => u.Runs o ∧ catalog.covers o.call.site) os ∧
      u.matching catalog = os.map (·.call) ∧
      ∀ onMatch : σ → Call Expr → σ,
        u.walk (β := β) (fun c s => .go (if catalog.covers c.site then onMatch s c else s)) s =
          .go (os.foldl (fun s o => onMatch s o.call) s)) ∧
    ∃ os, Enumerates Occurrence.Before (fun o => (u.Runs o ∧ DynamicCode.catalog.covers o.call.site) ∧
        ∀ name, o.call.arguments.head? = some name → u.constant? name = none) os ∧
      Rule.dynamicCode.check u = os.map fun o => .ofSpan "S1523" .warning u.path o.call.nameSpan
        "Make sure that this dynamic injection or execution of code is safe." := by
  refine ⟨listCalls_enumerated es, fun t => ?_, fun b t => ?_, ?_, ?_⟩
  · rw [walkList_eq_over, Visitor.over_eq_go]
  · rw [walkList_eq_over, Visitor.over_eq_stop]
  · obtain ⟨os, hos, hcalls⟩ := u.matching_enumerated catalog
    refine ⟨os, hos, by rw [matching_eq, hcalls], fun onMatch => ?_⟩
    rw [walk_matching, ← hcalls, List.foldl_map]
  · obtain ⟨os, hos, hcalls⟩ := u.matching_enumerated DynamicCode.catalog
    have reported := hos.filter fun o => !DynamicCode.hasConstantName u o.call
    refine ⟨_, ⟨reported.ordered, fun o => ?_⟩, ?_⟩
    · rw [reported.mem, not_hasConstantName]
    · rw [Rule.check, Rule.violations, DynamicCode.violations, matching_eq, ← hcalls, List.filter_map, List.map_map,
        List.map_map]
      rfl

end CompilationUnit

end CallLint
