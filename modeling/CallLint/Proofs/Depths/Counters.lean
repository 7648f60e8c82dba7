/-
Lowering with counters. Levels and contexts say how deep a node lies and whether it lies in a local type; here both are
counted while the nodes are visited. The constructs are those of `Inner`, with other actions: `Counted.visit` counts the
nesting up and down again around each node, cuts nodes off at the limit and notes what the counters read before and after
the node.

A counting action tallies with a plain one (`Counted.Tallies`) when both come to the same result and the same state, the
counters come back to where they were, and so does the number of open scopes at every node on the way. There is one rule
for each way in which actions are put together.
-/
import CallLint.Proofs.CallSites.Yields

namespace CallLint

/-! ## Counters -/

/-- what the counters read -/
structure Reading where
  nesting : Nat
  localTypes : Nat
  /-- how many scopes are open -/
  scopes : Nat
deriving DecidableEq, Repr

/-- a node that was visited, with what the counters read before and after it, and the visits inside it -/
structure Visit where
  node : Node
  before : Reading
  after : Reading
  inside : List Visit

/-- The visit lies inside so many others, which is what the nesting says; all counters are back where they were after it; and
so it is with the visits inside it, of which there are none where the node is cut off. -/
inductive Visit.Level : Nat → Visit → Prop
  | mk {depth : Nat} {v : Visit} : v.before.nesting = depth → v.after = v.before →
      (nestingLimit ≤ depth → v.inside = []) → (∀ w ∈ v.inside, Level (depth + 1) w) → Level depth v

structure Meter where
  nesting : Nat
  localTypes : Nat
  /-- the visits that are over, in the visit that is not -/
  visits : List Visit

/-- lowering that counts -/
abbrev Counted := StateT Meter Lower

namespace Counted

variable {α : Type}

def meter : Counted Meter :=
  get

def adjust (f : Meter → Meter) : Counted Unit :=
  modify f

/-- an action that counts nothing -/
def plain (action : Lower α) : Counted α :=
  liftM action

def reading : Counted Reading := do
  let k ← meter
  let st ← plain get
  return ⟨k.nesting, k.localTypes, st.scopes.length⟩

/-- runs an action in a scope of its own -/
def inScope (action : Counted α) : Counted α := do
  plain (modify fun st => { st with scopes := [] :: st.scopes })
  let result ← action
  plain (modify fun st => { st with scopes := st.scopes.drop 1 })
  return result

/-- runs an action between two adjustments of the counters -/
def between (action : Counted α) (before after : Meter → Meter) : Counted α := do
  adjust before
  let result ← action
  adjust after
  return result

/-- one level deeper, unless the nesting is at its limit -/
def deeper (action : Counted α) (cut : α) : Counted α := do
  let k ← meter
  if nestingLimit ≤ k.nesting then return cut
  else action.between (fun k => { k with nesting := k.nesting + 1 }) fun k => { k with nesting := k.nesting - 1 }

/-- a visit of a node, which leaves `cut` where it is cut off -/
def visit (n : Node) (cut : α) (action : Counted α) : Counted α := do
  let around ← meter
  let before ← reading
  adjust fun k => { k with visits := [] }
  let result ← action.deeper cut
  let after ← reading
  adjust fun k => { k with visits := around.visits ++ [⟨n, before, after, k.visits⟩] }
  return result

end Counted

/-- the context as the counter of local types has it -/
def LowerContext.counted (c : LowerContext) (localTypes : Nat) : LowerContext :=
  { c with inLocalType := decide (0 < localTypes) }

/-- Lowering with counters: a local type counts while it is lowered, and so does each node that is visited. -/
instance : Lowering Counted where
  plain := Counted.plain
  inScope := Counted.inScope
  inLocalType c action :=
    (action c).between (fun k => { k with localTypes := k.localTypes + 1 }) fun k => { k with localTypes := k.localTypes - 1 }
  placed c action := do
    let k ← Counted.meter
    action (c.counted k.localTypes)
  visit := Counted.visit

/-! ## Counting and plain actions -/

namespace Counted

/-- Started at this nesting and in so many local types, the counting action does what the plain one does, and both counters
are back at the end. If some scope is open, or if `q` holds, so is the number of open scopes, and the visits on the way have
the property `P`. -/
def Tallies {α : Type} (q : Prop) (P : Visit → Prop) (nesting localTypes : Nat) (x : Counted α) (y : Lower α) : Prop :=
  ∀ visits st,
    (∃ fault, y st = .error fault ∧ x ⟨nesting, localTypes, visits⟩ st = .error fault) ∨
    ∃ a st' more, y st = .ok (a, st') ∧
      x ⟨nesting, localTypes, visits⟩ st = .ok ((a, ⟨nesting, localTypes, visits ++ more⟩), st') ∧
      ((st.scopes = [] → q) → st'.scopes.length = st.scopes.length ∧ ∀ v ∈ more, P v)

variable {α β : Type} {q q' : Prop} {P P' : Visit → Prop} {nesting localTypes : Nat} {x : Counted α} {y : Lower α}

theorem Tallies.mono (h : Tallies q P nesting localTypes x y) (hq : q' → q) (hp : ∀ v, P v → P' v) :
    Tallies q' P' nesting localTypes x y := by
  intro visits st
  obtain fault | ⟨a, st', more, hy, hx, level⟩ := h visits st
  · exact .inl fault
  · refine .inr ⟨a, st', more, hy, hx, fun some => ?_⟩
    obtain ⟨same, levels⟩ := level fun none => hq (some none)
    exact ⟨same, fun v hv => hp v (levels v hv)⟩

theorem Tallies.imp (h : Tallies q P nesting localTypes x y) (hq : q' → q) : Tallies q' P nesting localTypes x y :=
  h.mono hq fun _ => id

theorem Tallies.pure {a : α} : Tallies q P nesting localTypes (Pure.pure a) (Pure.pure a) := by
  intro visits st
  refine .inr ⟨a, st, [], rfl, ?_, fun _ => ⟨rfl, by simp⟩⟩
  rw [List.append_nil]
  rfl

theorem Tallies.bind {f : α → Counted β} {g : α → Lower β} (h : Tallies q P nesting localTypes x y)
    (k : ∀ a, Tallies q P nesting localTypes (f a) (g a)) : Tallies q P nesting localTypes (x >>= f) (y >>= g) := by
  intro visits st
  have run (r : Except Fault ((α × Meter) × LowerState)) (hr : x ⟨nesting, localTypes, visits⟩ st = r) :
      (x >>= f) ⟨nesting, localTypes, visits⟩ st = r >>= fun p => f p.1.1 p.1.2 p.2 := hr ▸ rfl
  have run' (r : Except Fault (α × LowerState)) (hr : y st = r) : (y >>= g) st = r >>= fun p => g p.1 p.2 := hr ▸ rfl
  obtain ⟨fault, hy, hx⟩ | ⟨a, st', more, hy, hx, level⟩ := h visits st
  · exact .inl ⟨fault, run' _ hy, run _ hx⟩
  rw [run' _ hy, run _ hx]
  obtain ⟨fault, hy', hx'⟩ | ⟨b, st'', more', hy', hx', level'⟩ := k a (visits ++ more) st'
  · exact .inl ⟨fault, hy', hx'⟩
  refine .inr ⟨b, st'', more ++ more', hy', ?_, fun some => ?_⟩
  · rw [← List.append_assoc]
    exact hx'
  · obtain ⟨same, levels⟩ := level some
    obtain ⟨same', levels'⟩ := level' fun none => some (List.length_eq_zero_iff.1 (same ▸ List.length_eq_zero_iff.2 none))
    exact ⟨same'.trans same, fun v hv => (List.mem_append.1 hv).elim (levels v) (levels' v)⟩

theorem Tallies.map {f : α → β} (h : Tallies q P nesting localTypes x y) :
    Tallies q P nesting localTypes (f <$> x) (f <$> y) :=
  h.bind fun _ => .pure

theorem Tallies.state {f : LowerState → Counted β} {g : LowerState → Lower β}
    (k : ∀ st, Tallies q P nesting localTypes (f st) (g st)) :
    Tallies q P nesting localTypes (Counted.plain get >>= f) ((MonadState.get : Lower LowerState) >>= g) :=
  fun visits st => k st visits st

theorem Tallies.meter {f : Meter → Counted β} {y : Lower β}
    (k : ∀ visits, Tallies q P nesting localTypes (f ⟨nesting, localTypes, visits⟩) y) :
    Tallies q P nesting localTypes (Counted.meter >>= f) y :=
  fun visits st => k visits visits st

/-- an action that counts nothing, but may not open a scope for good -/
theorem Tallies.plain
    (h : ∀ st, (st.scopes = [] → q) → Safe True (fun r => r.2.scopes.length = st.scopes.length) (y st)) :
    Tallies q P nesting localTypes (Counted.plain y) y := by
  intro visits st
  have run : Counted.plain y ⟨nesting, localTypes, visits⟩ st =
      y st >>= fun r => .ok ((r.1, ⟨nesting, localTypes, visits⟩), r.2) := rfl
  cases hy : y st with
  | error fault => exact .inl ⟨fault, rfl, by rw [run, hy]; rfl⟩
  | ok r =>
    refine .inr ⟨r.1, r.2, [], rfl, ?_, fun some => ⟨?_, by simp⟩⟩
    · rw [run, hy, List.append_nil]
      rfl
    · have same := h st some
      rw [hy] at same
      exact same

theorem Tallies.lift {e : Except Fault α} : Tallies q P nesting localTypes (Counted.plain (liftM e)) (liftM e) := by
  refine .plain fun st _ => ?_
  cases e with
  | error fault => trivial
  | ok a => rfl

theorem Tallies.inScope (h : Tallies False P nesting localTypes x y) :
    Tallies q P nesting localTypes (Counted.inScope x) (Lower.inScope y) := by
  intro visits st
  have run (r : Except Fault ((α × Meter) × LowerState))
      (hr : x ⟨nesting, localTypes, visits⟩ { st with scopes := [] :: st.scopes } = r) :
      Counted.inScope x ⟨nesting, localTypes, visits⟩ st =
        r >>= fun p => .ok (p.1, { p.2 with scopes := p.2.scopes.drop 1 }) := hr ▸ rfl
  have run' (r : Except Fault (α × LowerState)) (hr : y { st with scopes := [] :: st.scopes } = r) :
      Lower.inScope y st = r >>= fun p => .ok (p.1, { p.2 with scopes := p.2.scopes.drop 1 }) := hr ▸ rfl
  obtain ⟨fault, hy, hx⟩ | ⟨a, st', more, hy, hx, level⟩ := h visits { st with scopes := [] :: st.scopes }
  · exact .inl ⟨fault, run' _ hy, run _ hx⟩
  · obtain ⟨same, levels⟩ := level nofun
    refine .inr ⟨a, _, more, run' _ hy, run _ hx, fun _ => ⟨?_, levels⟩⟩
    simp only [List.length_drop, same, List.length_cons, Nat.add_sub_cancel]

theorem Tallies.mapM {f : β → Counted α} {g : β → Lower α} {l : List β}
    (h : ∀ b ∈ l, Tallies q P nesting localTypes (f b) (g b)) : Tallies q P nesting localTypes (l.mapM f) (l.mapM g) := by
  induction l with
  | nil => exact .pure
  | cons b l ih =>
    rw [List.mapM_cons, List.mapM_cons]
    refine (h b List.mem_cons_self).bind fun a => ?_
    exact (ih fun b hb => h b (List.mem_cons_of_mem _ hb)).bind fun as => .pure

theorem Tallies.between {nesting' localTypes' : Nat} {before after : Meter → Meter}
    (h : Tallies q P nesting' localTypes' x y)
    (hb : ∀ visits, before ⟨nesting, localTypes, visits⟩ = ⟨nesting', localTypes', visits⟩)
    (ha : ∀ visits, after ⟨nesting', localTypes', visits⟩ = ⟨nesting, localTypes, visits⟩) :
    Tallies q P nesting localTypes (x.between before after) y := by
  intro visits st
  have run (r : Except Fault ((α × Meter) × LowerState)) (hr : x ⟨nesting', localTypes', visits⟩ st = r) :
      x.between before after ⟨nesting, localTypes, visits⟩ st = r >>= fun p => .ok ((p.1.1, after p.1.2), p.2) := by
    rw [← hr, ← hb]
    rfl
  obtain ⟨fault, hy, hx⟩ | ⟨a, st', more, hy, hx, level⟩ := h visits st
  · exact .inl ⟨fault, hy, run _ hx⟩
  · exact .inr ⟨a, st', more, hy, (run _ hx).trans (by rw [← ha]; rfl), level⟩

theorem Tallies.inLocalType {c : LowerContext} {f : LowerContext → Counted α} {g : LowerContext → Lower α}
    (h : Tallies q P nesting (localTypes + 1) (f c) (g { c with inLocalType := true })) :
    Tallies q P nesting localTypes (Lowering.inLocalType c f) (Lowering.inLocalType (c.counted localTypes) g) :=
  h.between (fun _ => rfl) fun _ => rfl

/-- the counter says whether an action lies in a local type -/
theorem Tallies.placed {c : LowerContext} {f : LowerContext → Counted α} {g : LowerContext → Lower α}
    (h : Tallies q P nesting localTypes (f (c.counted localTypes)) (g (c.counted localTypes))) :
    Tallies q P nesting localTypes (Lowering.placed c f) (Lowering.placed (c.counted localTypes) g) :=
  .meter fun _ => h

/-- below the limit the nesting goes up by one and down again -/
theorem Tallies.deeper {cut : α} (hn : nesting < nestingLimit) (h : Tallies q P (nesting + 1) localTypes x y) :
    Tallies q P nesting localTypes (x.deeper cut) y := by
  refine .meter fun visits => ?_
  rw [if_neg (Nat.not_le_of_lt hn)]
  exact h.between (fun _ => rfl) fun _ => rfl

/-- at the limit nothing is done -/
theorem deeper_limit (x : Counted α) (cut : α) {k : Meter} (hk : nestingLimit ≤ k.nesting) (st : LowerState) :
    x.deeper cut k st = .ok ((cut, k), st) := by
  change (if nestingLimit ≤ k.nesting then (Pure.pure cut : Counted α) else _) k st = _
  rw [if_pos hk]
  rfl

theorem Tallies.cut {cut : α} (hn : nestingLimit ≤ nesting) :
    Tallies q P nesting localTypes (x.deeper cut) (Pure.pure cut) := by
  intro visits st
  refine .inr ⟨cut, st, [], rfl, ?_, fun _ => ⟨rfl, by simp⟩⟩
  rw [deeper_limit x cut (k := ⟨nesting, localTypes, visits⟩) hn, List.append_nil]

/-- what a visit does: the visits inside the node are gathered, and then the visit itself is noted -/
theorem visit_eq (x : Counted α) (n : Node) (cut : α) (k : Meter) (st : LowerState) :
    x.visit n cut k st = x.deeper cut { k with visits := [] } st >>= fun p =>
      .ok ((p.1.1, { p.1.2 with visits := k.visits ++ [⟨n, ⟨k.nesting, k.localTypes, st.scopes.length⟩,
        ⟨p.1.2.nesting, p.1.2.localTypes, p.2.scopes.length⟩, p.1.2.visits⟩] }), p.2) :=
  rfl

/-- **What tallies inside of a node tallies around it**, and its visit is level. -/
theorem Tallies.visit {n : Node} {cut : α}
    (h : Tallies q (fun v => nesting < nestingLimit ∧ v.Level (nesting + 1)) nesting localTypes (x.deeper cut) y) :
    Tallies q (Visit.Level nesting) nesting localTypes (x.visit n cut) y := by
  intro visits st
  rw [visit_eq]
  obtain ⟨fault, hy, hx⟩ | ⟨a, st', inside, hy, hx, level⟩ := h [] st
  · exact .inl ⟨fault, hy, by rw [hx]; rfl⟩
  refine .inr ⟨a, st', _, hy, by rw [hx]; rfl, fun some => ?_⟩
  obtain ⟨same, levels⟩ := level some
  refine ⟨same, fun v hv => ?_⟩
  obtain rfl := List.mem_singleton.1 hv
  refine .mk rfl ?_ (fun limit => ?_) fun w hw => ?_
  · exact congrArg (Reading.mk nesting localTypes) same
  · exact List.eq_nil_iff_forall_not_mem.2 fun w hw => Nat.not_lt_of_le limit (levels w hw).1
  · exact (levels w hw).2

/-! ## Variables -/

/-- a variable opens a scope only where none is open -/
theorem length_declare (v : VariableDecl) {st : LowerState} (h : st.scopes ≠ []) :
    (st.declare v).scopes.length = st.scopes.length := by
  cases hs : st.scopes with
  | nil => exact absurd hs h
  | cons scope outer => simp [LowerState.declare, LowerState.bind, hs]

theorem Tallies.declare (v : VariableDecl) :
    Tallies False P nesting localTypes (Counted.plain (Lower.declare v)) (Lower.declare v) :=
  .plain fun _ some => length_declare v some

theorem Tallies.declareAll {l : List β} (f : β → VariableDecl) :
    Tallies False P nesting localTypes (Counted.plain (l.forM fun b => Lower.declare (f b)))
      (l.forM fun b => Lower.declare (f b)) := by
  refine .plain fun st some => ?_
  induction l generalizing st with
  | nil => rfl
  | cons b l ih =>
    have same := length_declare (f b) some
    have some' : (st.declare (f b)).scopes ≠ [] := by
      intro none
      rw [none] at same
      exact some (List.length_eq_zero_iff.1 same.symm)
    exact (ih (st.declare (f b)) some').mono id fun r hr => hr.trans same

end Counted

end CallLint
