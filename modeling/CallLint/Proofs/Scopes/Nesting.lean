/-
Variables by scope. What a part of a body has to do with variables is a tree of events: names that are used, variables
that are declared, and scopes with the events in them. A walk takes the events one by one and keeps the variables in
force, the last one first; those that a scope declares are dropped when it ends.

`Event.seenIn_lawful`: where the events stand as nodes of a tree do, the variables in force at a use are those whose scopes
are around the use and whose offset is not past it, innermost and latest first. So the first of a name is the one that the
name means (`Nearest`).
-/
import CallLint.Source.Declarations
import Mathlib.Tactic

namespace CallLint

/-! ## Scopes in a tree -/

/-- kinds of nodes that open a scope -/
def NodeKind.opensScope : NodeKind → Bool
  | .methodDeclaration | .constructorDeclaration | .lambdaExpression | .block | .constructorBody | .classBody
  | .interfaceBody | .enumBody | .annotationTypeBody | .switchBlock | .forStatement | .enhancedForStatement | .catchClause
  | .tryWithResourcesStatement => true
  | _ => false

/-- the scopes in a node: those around it, and its own if it opens one -/
def Node.opened (n : Node) (scopes : List Node) : List Node :=
  if n.kind.opensScope then n :: scopes else scopes

/-- the nodes from a node up to the top of a tree that open scopes, innermost first -/
inductive Node.Around (top : Node) : List Node → Node → Prop
  | top : Around top (top.opened []) top
  | child {scopes : List Node} {m n : Node} : Around top scopes m → n ∈ m.children → Around top (n.opened scopes) n

/-! ## Events -/

/-- a variable that a part of a body declares -/
structure Declared where
  name : String
  kind : VariableKind
  /-- where the variable is located -/
  node : Node
  /-- offset from which the name means the variable: the end of its declaration, or the start of what it is a parameter of -/
  since : Nat

inductive Event where
  | use (name : String) (node : Node)
  | declare (v : Declared)
  | scope (node : Node) (inner : List Event)

/-- a name that is used, with the scopes around it -/
structure Use where
  scopes : List Node
  name : String
  node : Node

/-- a variable with the scopes around it -/
structure Entry where
  scopes : List Node
  declared : Declared

namespace Event

mutual

/-- the names that an event uses -/
def uses (scopes : List Node) : Event → List Use
  | use name n => [⟨scopes, name, n⟩]
  | declare _ => []
  | scope n inner => usesIn (n :: scopes) inner
termination_by structural e => e

def usesIn (scopes : List Node) : List Event → List Use
  | [] => []
  | e :: es => uses scopes e ++ usesIn scopes es
termination_by structural es => es

end

mutual

/-- the variables that an event declares -/
def entries (scopes : List Node) : Event → List Entry
  | use _ _ => []
  | declare v => [⟨scopes, v⟩]
  | scope n inner => entriesIn (n :: scopes) inner
termination_by structural e => e

def entriesIn (scopes : List Node) : List Event → List Entry
  | [] => []
  | e :: es => entries scopes e ++ entriesIn scopes es
termination_by structural es => es

end

end Event

/-! ## What a name means -/

/-- the scope of the variable is around the use, and the variable is declared before -/
def Entry.Reaches (d : Entry) (x : Use) : Prop :=
  d.scopes <:+ x.scopes ∧ d.declared.since ≤ x.node.start

/-- the variable has the name and reaches its use -/
def Entry.InForce (d : Entry) (x : Use) : Prop :=
  d.declared.name = x.name ∧ d.Reaches x

/-- Of the variables in force, the one at a place has the innermost scope, and is the last one declared there. -/
def Nearest (ds : List Entry) (x : Use) (k : Nat) : Prop :=
  ∃ d, ds[k]? = some d ∧ d.InForce x ∧ ∀ j d', ds[j]? = some d' → d'.InForce x →
    j = k ∨ d'.scopes.length < d.scopes.length ∨ (d'.scopes = d.scopes ∧ j < k)

/-! ## The walk -/

/-- what is known at a place of a body -/
structure Env where
  /-- the variables declared so far -/
  entries : List Entry
  /-- those that are in force, the last one first, each with its place -/
  live : List (Nat × Entry)

namespace Env

def empty : Env := ⟨[], []⟩

def declare (env : Env) (d : Entry) : Env :=
  ⟨env.entries ++ [d], (env.entries.length, d) :: env.live⟩

end Env

namespace Event

mutual

/-- what is known after an event -/
def after (scopes : List Node) : Event → Env → Env
  | use _ _, env => env
  | declare v, env => env.declare ⟨scopes, v⟩
  | scope n inner, env => { afterIn (n :: scopes) inner env with live := env.live }
termination_by structural e => e

def afterIn (scopes : List Node) : List Event → Env → Env
  | [], env => env
  | e :: es, env => afterIn scopes es (after scopes e env)
termination_by structural es => es

end

mutual

/-- the names that an event uses, each with the variables in force there -/
def seen (scopes : List Node) : Event → Env → List (Use × List (Nat × Entry))
  | use name n, env => [(⟨scopes, name, n⟩, env.live)]
  | declare _, _ => []
  | scope n inner, env => seenIn (n :: scopes) inner env
termination_by structural e => e

def seenIn (scopes : List Node) : List Event → Env → List (Use × List (Nat × Entry))
  | [], _ => []
  | e :: es, env => seen scopes e env ++ seenIn scopes es (after scopes e env)
termination_by structural es => es

end

variable {scopes : List Node}

@[simp] theorem afterIn_append (es fs : List Event) (env : Env) :
    afterIn scopes (es ++ fs) env = afterIn scopes fs (afterIn scopes es env) := by
  induction es generalizing env with
  | nil => rfl
  | cons e es ih => rw [List.cons_append, afterIn, afterIn, ih]

@[simp] theorem seenIn_append (es fs : List Event) (env : Env) :
    seenIn scopes (es ++ fs) env = seenIn scopes es env ++ seenIn scopes fs (afterIn scopes es env) := by
  induction es generalizing env with
  | nil => rfl
  | cons e es ih => rw [List.cons_append, seenIn, seenIn, afterIn, ih, List.append_assoc]

mutual

theorem after_entries : ∀ (e : Event) (scopes : List Node) (env : Env),
    (after scopes e env).entries = env.entries ++ entries scopes e
  | use _ _, _, _ => by rw [after, entries, List.append_nil]
  | declare _, _, _ => rfl
  | scope n inner, scopes, env => afterIn_entries inner (n :: scopes) env
termination_by structural e => e

theorem afterIn_entries : ∀ (es : List Event) (scopes : List Node) (env : Env),
    (afterIn scopes es env).entries = env.entries ++ entriesIn scopes es
  | [], _, _ => by rw [afterIn, entriesIn, List.append_nil]
  | e :: es, scopes, env => by
    rw [afterIn, entriesIn, afterIn_entries es, after_entries e, List.append_assoc]
termination_by structural es => es

end

mutual

theorem seen_uses : ∀ (e : Event) (scopes : List Node) (env : Env), (seen scopes e env).map (·.1) = uses scopes e
  | use _ _, _, _ => rfl
  | declare _, _, _ => rfl
  | scope n inner, scopes, env => seenIn_uses inner (n :: scopes) env
termination_by structural e => e

theorem seenIn_uses : ∀ (es : List Event) (scopes : List Node) (env : Env),
    (seenIn scopes es env).map (·.1) = usesIn scopes es
  | [], _, _ => rfl
  | e :: es, scopes, env => by rw [seenIn, usesIn, List.map_append, seen_uses e, seenIn_uses es]
termination_by structural es => es

end

/-! ## Events that stand as the nodes of a tree -/

def isDeclaration : Event → Bool
  | declare _ => true
  | _ => false

def start : Event → Nat
  | use _ n => n.start
  | declare v => v.since
  | scope n _ => n.start

def stop : Event → Nat
  | use _ n => n.stop
  | declare v => v.since
  | scope n _ => n.stop

/-- the first event ends before the second starts; the other way round only when neither is a declaration -/
def Clear (e f : Event) : Prop :=
  e.stop ≤ f.start ∨ (f.stop ≤ e.start ∧ e.isDeclaration = false ∧ f.isDeclaration = false)

end Event

/-- Where a variable is written, and from where on its name means it: a declared variable from the end of its declaration,
the variable of a loop from the end of what is looped over, and a parameter from the start of what it is a parameter of. -/
inductive Declared.Written (s : Source) (scopes : List Node) : Declared → Prop
  | declaration {n name : Node} :
    n.kind = .variableDeclarator ∨ n.kind = .resource ∨ n.kind = .catchFormalParameter → n.child? .name = some name →
      Written s scopes ⟨s.textOf name, .local, n, n.stop⟩
  | loop {n name : Node} : n.kind = .enhancedForStatement → n.child? .name = some name →
    Written s scopes ⟨s.textOf name, .local, n, ((n.child? .value).map (·.stop)).getD n.start⟩
  | parameter {n list : Node} {outer : List Node} {p : Parameter} :
    scopes = n :: outer → n.child? .parameters = some list → p ∈ s.parametersOf list →
      Written s scopes ⟨p.name, .parameter, list, n.start⟩
  | inferred {n list m : Node} {outer : List Node} :
    scopes = n :: outer → n.child? .parameters = some list → m = list ∨ m ∈ list.namedChildren →
      Written s scopes ⟨s.textOf m, .local, m, n.start⟩

theorem Declared.Written.kind {s : Source} {scopes : List Node} {v : Declared} (h : v.Written s scopes) :
    v.kind ≠ .field := by
  cases h <;> nofun

namespace Event

/-- an event is at its place in a tree: the scopes are those around it, and what a scope holds lies in it, well apart -/
inductive Arranged (s : Source) (top : Node) : List Node → Event → Prop
  | use {scopes : List Node} {n : Node} :
    top.Around scopes n → n.kind = .identifier → n.start < n.stop → Arranged s top scopes (.use (s.textOf n) n)
  | declare {scopes : List Node} {v : Declared} :
    top.Around scopes v.node → v.Written s scopes → Arranged s top scopes (.declare v)
  | scope {scopes : List Node} {n : Node} {inner : List Event} :
    n.start < n.stop → inner.Pairwise Clear → (∀ e ∈ inner, n.start ≤ e.start ∧ e.stop ≤ n.stop) →
    (∀ e ∈ inner, Arranged s top (n :: scopes) e) → Arranged s top scopes (.scope n inner)

end Event

/-- the use is that of the identifier at its node, and its scopes are those around the node -/
structure Use.Stands (s : Source) (top : Node) (x : Use) : Prop where
  around : top.Around x.scopes x.node
  kind : x.node.kind = .identifier
  name : x.name = s.textOf x.node

/-- the variable is written in the tree, and its scopes are those around its node -/
structure Entry.Stands (s : Source) (top : Node) (d : Entry) : Prop where
  around : top.Around d.scopes d.declared.node
  written : d.declared.Written s d.scopes

namespace Event

variable {s : Source} {top : Node}

mutual

theorem uses_stand : ∀ (e : Event) {scopes : List Node}, e.Arranged s top scopes → ∀ x ∈ e.uses scopes, x.Stands s top
  | use name n, scopes, h, x, hx => by
    obtain rfl := List.mem_singleton.1 hx
    cases h with
    | use around kind _ => exact ⟨around, kind, rfl⟩
  | declare _, _, _, x, hx => by simp [Event.uses] at hx
  | scope n inner, scopes, h, x, hx => by
    cases h with
    | scope _ _ _ harranged => exact usesIn_stand inner harranged x hx
termination_by structural e => e

theorem usesIn_stand : ∀ (es : List Event) {scopes : List Node}, (∀ e ∈ es, e.Arranged s top scopes) →
    ∀ x ∈ usesIn scopes es, x.Stands s top
  | [], _, _, x, hx => by simp [Event.usesIn] at hx
  | e :: es, scopes, h, x, hx => by
    obtain ⟨he, hes⟩ := List.forall_mem_cons.1 h
    rw [Event.usesIn, List.mem_append] at hx
    exact hx.elim (uses_stand e he x) (usesIn_stand es hes x)
termination_by structural es => es

end

mutual

theorem entries_stand : ∀ (e : Event) {scopes : List Node}, e.Arranged s top scopes →
    ∀ d ∈ e.entries scopes, d.Stands s top
  | use _ _, _, _, d, hd => by simp [Event.entries] at hd
  | declare _, scopes, h, d, hd => by
    obtain rfl := List.mem_singleton.1 hd
    cases h with
    | declare around written => exact ⟨around, written⟩
  | scope n inner, scopes, h, d, hd => by
    cases h with
    | scope _ _ _ harranged => exact entriesIn_stand inner harranged d hd
termination_by structural e => e

theorem entriesIn_stand : ∀ (es : List Event) {scopes : List Node}, (∀ e ∈ es, e.Arranged s top scopes) →
    ∀ d ∈ entriesIn scopes es, d.Stands s top
  | [], _, _, d, hd => by simp [Event.entriesIn] at hd
  | e :: es, scopes, h, d, hd => by
    obtain ⟨he, hes⟩ := List.forall_mem_cons.1 h
    rw [Event.entriesIn, List.mem_append] at hd
    exact hd.elim (entries_stand e he d) (entriesIn_stand es hes d)
termination_by structural es => es

end

end Event

/-! ## Where uses and variables come from -/

/-- the name is used in the event -/
def Use.Of (x : Use) (scopes : List Node) (e : Event) : Prop :=
  (match e with
    | .use _ _ => x.scopes = scopes
    | .declare _ => False
    | .scope n _ => n :: scopes <:+ x.scopes) ∧ e.start ≤ x.node.start ∧ x.node.start < e.stop

/-- the variable is declared in the event -/
def Entry.Of (d : Entry) (scopes : List Node) : Event → Prop
  | .use _ _ => False
  | .declare v => d = ⟨scopes, v⟩
  | .scope n _ => n :: scopes <:+ d.scopes

theorem Use.Of.scopes_suffix {x : Use} {scopes : List Node} {e : Event} (h : x.Of scopes e) : scopes <:+ x.scopes := by
  cases e with
  | use _ _ => exact h.1 ▸ List.suffix_rfl
  | declare _ => exact h.1.elim
  | scope n _ => exact (List.suffix_cons n scopes).trans h.1

theorem Entry.Of.scopes_suffix {d : Entry} {scopes : List Node} {e : Event} (h : d.Of scopes e) : scopes <:+ d.scopes := by
  cases e with
  | use _ _ => exact h.elim
  | declare _ =>
    obtain rfl := h
    exact List.suffix_rfl
  | scope n _ => exact (List.suffix_cons n scopes).trans h

/-- a scope that has ended, or is still to come, is not around the use -/
theorem Entry.Of.not_reaches {d : Entry} {x : Use} {scopes : List Node} {e f : Event} (hd : d.Of scopes e)
    (hx : x.Of scopes f) (he : e.isDeclaration = false) (happart : e.stop ≤ f.start ∨ f.stop ≤ e.start) :
    ¬ d.Reaches x := by
  rintro ⟨hscopes, -⟩
  cases e with
  | use _ _ => exact hd
  | declare _ => cases he
  | scope n _ =>
    have around : n :: scopes <:+ x.scopes := List.IsSuffix.trans hd hscopes
    cases f with
    | use _ _ =>
      have hlen := around.length_le
      rw [hx.1, List.length_cons] at hlen
      exact absurd hlen (Nat.not_succ_le_self _)
    | declare _ => exact hx.1
    | scope m _ =>
      -- both scopes have the same place among those around the use
      have same : n :: scopes = m :: scopes :=
        (List.suffix_of_suffix_length_le around hx.1 (by simp)).eq_of_length (by simp)
      obtain rfl : n = m := (List.cons.inj same).1
      have inside := hx.2
      simp only [Event.start, Event.stop] at inside happart
      omega

/-- a variable reaches no use before the end of its declaration -/
theorem Entry.Of.not_reaches_before {d : Entry} {x : Use} {scopes : List Node} {v : Declared} {f : Event}
    (hd : d.Of scopes (.declare v)) (hx : x.Of scopes f) (h : f.stop ≤ v.since) : ¬ d.Reaches x := by
  rintro ⟨-, hsince⟩
  obtain rfl := hd
  exact absurd ((hx.2.2.trans_le h).trans_le hsince) (lt_irrefl _)

/-! ## The variables in force at a use -/

/-- the first variable has the inner scope, or the same and comes later -/
def Deeper (p q : Nat × Entry) : Prop :=
  q.2.scopes.length < p.2.scopes.length ∨ (q.2.scopes.length = p.2.scopes.length ∧ q.1 < p.1)

/-- the variables from a place on that reach a use, in order -/
structure Lists (ds : List Entry) (x : Use) (first : Nat) (live : List (Nat × Entry)) : Prop where
  sorted : live.Pairwise Deeper
  mem : ∀ k d, (k, d) ∈ live ↔ first ≤ k ∧ ds[k]? = some d ∧ d.Reaches x

namespace Lists

variable {ds mid more : List Entry} {x : Use} {first : Nat} {live : List (Nat × Entry)}

/-- variables that do not reach the use may be declared later -/
theorem later (h : Lists ds x first live) (hmore : ∀ d ∈ more, ¬ d.Reaches x) : Lists (ds ++ more) x first live := by
  refine ⟨h.sorted, fun k d => (h.mem k d).trans ?_⟩
  constructor
  · rintro ⟨hk, hd, hreach⟩
    exact ⟨hk, by rw [List.getElem?_append_left (List.getElem?_eq_some_iff.1 hd).1, hd], hreach⟩
  · rintro ⟨hk, hd, hreach⟩
    refine ⟨hk, ?_, hreach⟩
    by_contra hne
    rcases lt_or_ge k ds.length with hlt | hge
    · rw [List.getElem?_append_left hlt] at hd
      exact hne hd
    · rw [List.getElem?_append_right hge] at hd
      exact hmore d (List.mem_of_getElem? hd) hreach

/-- variables that do not reach the use may be declared before -/
theorem sooner (h : Lists (ds ++ mid ++ more) x (ds ++ mid).length live) (hmid : ∀ d ∈ mid, ¬ d.Reaches x) :
    Lists (ds ++ mid ++ more) x ds.length live := by
  refine ⟨h.sorted, fun k d => (h.mem k d).trans ?_⟩
  constructor
  · rintro ⟨hk, hd⟩
    exact ⟨le_trans (by simp) hk, hd⟩
  · rintro ⟨hk, hd, hreach⟩
    refine ⟨?_, hd, hreach⟩
    by_contra hlt
    rw [not_le] at hlt
    rw [List.getElem?_append_left hlt, List.getElem?_append_right hk] at hd
    exact hmid d (List.mem_of_getElem? hd) hreach

/-- a variable that reaches the use comes after those that are declared later -/
theorem declared {d : Entry} (h : Lists (ds ++ [d] ++ more) x (ds ++ [d]).length live) (hd : d.Reaches x)
    (hmore : ∀ e ∈ more, d.scopes <:+ e.scopes) : Lists (ds ++ [d] ++ more) x ds.length (live ++ [(ds.length, d)]) := by
  have place : (ds ++ [d] ++ more)[ds.length]? = some d := by simp
  refine ⟨List.pairwise_append.2 ⟨h.sorted, List.pairwise_singleton _ _, ?_⟩, fun k e => ?_⟩
  · rintro ⟨k, e⟩ hp q hq
    obtain rfl := List.mem_singleton.1 hq
    obtain ⟨hk, he, -⟩ := (h.mem k e).1 hp
    rw [List.getElem?_append_right hk] at he
    have inner := (hmore e (List.mem_of_getElem? he)).length_le
    have later : ds.length < k := by simpa using hk
    exact inner.lt_or_eq.imp id fun heq => ⟨heq, later⟩
  · rw [List.mem_append, List.mem_singleton, h.mem, Prod.mk.injEq]
    constructor
    · rintro (⟨hk, he⟩ | ⟨rfl, rfl⟩)
      · exact ⟨le_trans (by simp) hk, he⟩
      · exact ⟨le_rfl, place, hd⟩
    · rintro ⟨hk, he⟩
      rcases hk.lt_or_eq with hlt | rfl
      · exact .inl ⟨by simpa using hlt, he⟩
      · exact .inr ⟨rfl, Option.some.inj (he.1.symm.trans place)⟩

end Lists

namespace Event

mutual

theorem entries_of : ∀ (e : Event) (scopes : List Node), ∀ d ∈ entries scopes e, d.Of scopes e
  | use _ _, _, d, h => by simp [entries] at h
  | declare _, _, _, h => List.mem_singleton.1 h
  | scope n inner, scopes, d, h => by
    obtain ⟨e, -, he⟩ := entriesIn_of inner (n :: scopes) d h
    exact he.scopes_suffix
termination_by structural e => e

theorem entriesIn_of : ∀ (es : List Event) (scopes : List Node), ∀ d ∈ entriesIn scopes es, ∃ e ∈ es, d.Of scopes e
  | [], _, d, h => by simp [entriesIn] at h
  | e :: es, scopes, d, h => by
    rw [entriesIn, List.mem_append] at h
    rcases h with h | h
    · exact ⟨e, List.mem_cons_self, entries_of e scopes d h⟩
    · obtain ⟨f, hf, hd⟩ := entriesIn_of es scopes d h
      exact ⟨f, List.mem_cons_of_mem e hf, hd⟩
termination_by structural es => es

end

/-- what later events declare does not reach a use in an event -/
theorem Clear.not_reaches {e f : Event} {scopes : List Node} {x : Use} {d : Entry} (h : Clear e f) (hx : x.Of scopes e)
    (hd : d.Of scopes f) : ¬ d.Reaches x := by
  cases hf : f.isDeclaration with
  | true =>
    cases f with
    | declare v =>
      rcases h with h | ⟨-, -, h⟩
      · exact hd.not_reaches_before hx h
      · cases h
    | _ => cases hf
  | false => exact hd.not_reaches hx hf (h.symm.imp And.left id)

/-- what earlier scopes declare does not reach a use in an event -/
theorem Clear.not_reaches_after {e f : Event} {scopes : List Node} {x : Use} {d : Entry} (h : Clear e f)
    (he : e.isDeclaration = false) (hx : x.Of scopes f) (hd : d.Of scopes e) : ¬ d.Reaches x :=
  hd.not_reaches hx he (h.imp id And.left)

variable {s : Source} {top : Node}

mutual

/-- **What is in force at a use.** The variables in force are those before the event, and of those in the event the ones
that reach the use. -/
theorem seen_lawful : ∀ (e : Event) (scopes : List Node) (env : Env), e.Arranged s top scopes →
    ∀ p ∈ seen scopes e env, p.1.Of scopes e ∧
      ∃ live, p.2 = live ++ env.live ∧ Lists (after scopes e env).entries p.1 env.entries.length live
  | use name n, scopes, env, h, p, hp => by
    obtain rfl := List.mem_singleton.1 hp
    cases h with
    | use _ _ hne =>
      refine ⟨⟨rfl, le_rfl, hne⟩, [], rfl, .nil, fun k d => ?_⟩
      simp only [List.not_mem_nil, false_iff]
      rintro ⟨hk, hd, -⟩
      exact absurd (List.getElem?_eq_some_iff.1 hd).1 (not_lt.2 hk)
  | declare _, _, _, _, p, hp => by simp [seen] at hp
  | scope n inner, scopes, env, h, p, hp => by
    cases h with
    | scope _ hclear hin harranged =>
      obtain ⟨⟨e, he, hx⟩, live⟩ := seenIn_lawful inner (n :: scopes) env harranged hclear p hp
      obtain ⟨hstart, hstop⟩ := hin e he
      exact ⟨⟨hx.scopes_suffix, hstart.trans hx.2.1, hx.2.2.trans_le hstop⟩, live⟩
termination_by structural e => e

theorem seenIn_lawful : ∀ (es : List Event) (scopes : List Node) (env : Env), (∀ e ∈ es, e.Arranged s top scopes) →
    es.Pairwise Clear → ∀ p ∈ seenIn scopes es env, (∃ e ∈ es, p.1.Of scopes e) ∧
      ∃ live, p.2 = live ++ env.live ∧ Lists (afterIn scopes es env).entries p.1 env.entries.length live
  | [], _, _, _, _, p, hp => by simp [seenIn] at hp
  | e :: es, scopes, env, h, hclear, p, hp => by
    obtain ⟨he, hes⟩ := List.forall_mem_cons.1 h
    obtain ⟨hfirst, hclear⟩ := List.pairwise_cons.1 hclear
    rw [seenIn, List.mem_append] at hp
    rw [afterIn]
    rcases hp with hp | hp
    · obtain ⟨hx, live, hp2, hlists⟩ := seen_lawful e scopes env he p hp
      refine ⟨⟨e, List.mem_cons_self, hx⟩, live, hp2, ?_⟩
      rw [afterIn_entries]
      refine hlists.later fun d hd => ?_
      obtain ⟨f, hf, hd⟩ := entriesIn_of es scopes d hd
      exact (hfirst f hf).not_reaches hx hd
    · obtain ⟨⟨f, hf, hx⟩, live, hp2, hlists⟩ := seenIn_lawful es scopes (after scopes e env) hes hclear p hp
      refine ⟨⟨f, List.mem_cons_of_mem e hf, hx⟩, ?_⟩
      have clear := hfirst f hf
      rw [afterIn_entries, after_entries] at hlists ⊢
      cases e with
      | use name n =>
        refine ⟨live, hp2, hlists.sooner ?_⟩
        simp [entries]
      | scope n inner =>
        refine ⟨live, hp2, hlists.sooner fun d hd => ?_⟩
        exact clear.not_reaches_after rfl hx (entries_of _ scopes d hd)
      | declare v =>
        have reaches : Entry.Reaches ⟨scopes, v⟩ p.1 := by
          rcases clear with clear | ⟨-, hv, -⟩
          · exact ⟨hx.scopes_suffix, clear.trans hx.2.1⟩
          · cases hv
        have declared := hlists.declared reaches fun d hd => by
          obtain ⟨g, -, hd⟩ := entriesIn_of es scopes d hd
          exact hd.scopes_suffix
        refine ⟨_, ?_, declared⟩
        rw [hp2, List.append_assoc]
        rfl
termination_by structural es => es

end

end Event

/-! ## The nearest variable -/

variable {ds : List Entry} {x : Use} {live : List (Nat × Entry)}

/-- the variable that a walk finds for a name -/
def Use.find (x : Use) (live : List (Nat × Entry)) : Option Nat :=
  (live.find? fun p => p.2.declared.name == x.name).map (·.1)

/-- the first variable of the name is the nearest -/
theorem Lists.nearest (h : Lists ds x 0 live) {k : Nat} (hk : x.find live = some k) : Nearest ds x k := by
  obtain ⟨⟨k, d⟩, hfound, rfl⟩ := Option.map_eq_some_iff.1 hk
  obtain ⟨hname, before, after, rfl, hbefore⟩ := List.find?_eq_some_iff_append.1 hfound
  have hsorted := List.pairwise_append.1 h.sorted
  obtain ⟨-, hd, hreach⟩ := (h.mem k d).1 (by simp)
  refine ⟨d, hd, ⟨by simpa using hname, hreach⟩, fun j e he hforce => ?_⟩
  have hmem := (h.mem j e).2 ⟨Nat.zero_le j, he, hforce.2⟩
  rcases List.mem_append.1 hmem with hmem | hmem
  · have hne := hbefore _ hmem
    simp [hforce.1] at hne
  · rcases List.mem_cons.1 hmem with heq | hmem
    · exact .inl (Prod.mk.inj heq).1
    · have deeper := (List.pairwise_cons.1 hsorted.2.1).1 _ hmem
      refine .inr (deeper.imp id fun ⟨hlen, hlt⟩ => ⟨?_, hlt⟩)
      exact (List.suffix_of_suffix_length_le hforce.2.1 hreach.1 hlen.le).eq_of_length hlen

/-- no variable of the name is in force when none is found -/
theorem Lists.none (h : Lists ds x 0 live) (hk : x.find live = .none) : ∀ d ∈ ds, ¬ d.InForce x := by
  intro d hd hforce
  obtain ⟨k, hk'⟩ := List.mem_iff_getElem?.1 hd
  have hmem := (h.mem k d).2 ⟨Nat.zero_le k, hk', hforce.2⟩
  have hne := List.find?_eq_none.1 (Option.map_eq_none_iff.1 hk) _ hmem
  simp [hforce.1] at hne

end CallLint
