/-
The depth of units. Files are lowered with counters that are set only once: the nesting starts anew with each body, the
number of local types does not (`CompilationUnit.countTree`). This leaves the same unit as lowering by levels, and every
node that is visited leaves the counters as it found them (`CompilationUnit.countTree_eq`). A node that is cut off changes
nothing at all (`Inner.ofLevels_cut`), so what comes after it is lowered as without it.

`Source.unit_depth` says this of every file, and that no expression of its unit is higher than the limit and one.
-/
import CallLint.Proofs.Depths.Balances
import CallLint.Proofs.Depths.Heights
import CallLint.Proofs.Laws.Files
import CallLint.Proofs.Scopes.Bodies

namespace CallLint

open Counted

/-! ## Nodes that are cut off -/

/-- **At the limit a node leaves nothing**, or an expression without children, and only its visit is noted. -/
theorem Inner.ofLevels_cut (steps : Nat) (c : LowerContext) (n : Node) {k : Meter} (hk : nestingLimit ≤ k.nesting)
    (st : LowerState) :
    let inner : Inner Counted := .ofLevels (steps + 1)
    ∃ v : Visit, v.node = n ∧ v.Level k.nesting ∧
      inner.splice c n k st = .ok (([], { k with visits := k.visits ++ [v] }), st) ∧
      inner.expression c n k st = .ok ((.other n.kind.render [], { k with visits := k.visits ++ [v] }), st) := by
  let reading : Reading := ⟨k.nesting, k.localTypes, st.scopes.length⟩
  have run {α : Type} (cut : α) (action : Counted α) :
      action.visit n cut k st = .ok ((cut, { k with visits := k.visits ++ [⟨n, reading, reading, []⟩] }), st) := by
    have inside : action.deeper cut { k with visits := [] } st = .ok ((cut, { k with visits := [] }), st) :=
      deeper_limit action cut (k := { k with visits := [] }) hk st
    rw [visit_eq, inside]
    rfl
  exact ⟨⟨n, reading, reading, []⟩, rfl, .mk rfl rfl (fun _ => rfl) nofun, run _ _, run _ _⟩

/-! ## Bodies -/

/-- **Bodies tally.** Only an initializer is lowered where no scope is open, and it is an expression. -/
theorem Body.tallies {s : Source} {d : Declarations} {u : CompilationUnit} (b : Body) {steps : Nat}
    (hs : nestingLimit < steps) :
    Tallies b.Fits (Visit.Level 0) 0 0 (b.code (Inner.ofLevels steps) s d u) (b.code (Inner.ofLevels nestingLimit) s d u) := by
  have inner : (Inner.ofLevels steps).Balances (Inner.ofLevels (nestingLimit - 0)) (Visit.Level 0) 0 :=
    Inner.ofLevels_balances hs
  cases b with
  | method id n =>
    rw [code, code]
    cases u.methodAt? id with
    | none => exact .pure
    | some decl =>
      have children (code : Node) :
          Tallies False (Visit.Level 0) 0 0 ((Inner.ofLevels steps).children ⟨s, d, decl.owner, false⟩ code)
            ((Inner.ofLevels nestingLimit).children ⟨s, d, decl.owner, false⟩ code) :=
        inner.children False.elim
      refine .inScope ?_
      cases n.child? .parameters <;> cases n.child? .body
      case none.none => exact .pure
      case none.some code => exact children code
      case some.none list => exact (Tallies.declareAll _).bind fun _ => .pure
      case some.some list code => exact (Tallies.declareAll _).bind fun _ => children code
  | field id owner value =>
    refine ((inner.expression ⟨s, d, owner, false⟩ value 0).imp fun hb => ?_).bind fun _ => .pure
    exact ⟨hb.1.regular, hb.2⟩
  | block owner n =>
    exact (Tallies.inScope (.mapM fun part _ => inner.children False.elim)).bind fun _ => .pure

/-! ## Files -/

namespace CompilationUnit

variable (s : Source) (d : Declarations) (steps : Nat)

/-- lowers a body and puts it where it belongs; the nesting starts anew, the number of local types does not -/
def countBody : CompilationUnit × Meter → Body → Except Fault (CompilationUnit × Meter)
  | (u, k), b => do
    let inner : Inner Counted := .ofLevels steps
    let ((code, k), st) ← b.code inner s d u { k with nesting := 0 } ⟨u.variableDecls, []⟩
    return (b.put s u code st.variableDecls, k)

/-- the unit of a syntax tree, and the visits of all nodes in bodies -/
def countTree (path : String) (root : Node) : Except Fault (CompilationUnit × Meter) :=
  let package := s.package? root
  let imports := s.imports root
  let d := Declarations.ofFile s (NameTable.ofImports package imports) root
  d.bodies.foldlM (countBody s d steps) (⟨path, package, imports, d.types, d.methods, d.fields, [], false⟩, ⟨0, 0, []⟩)

variable {s : Source} {d : Declarations} {steps : Nat}

/-- the counting run of a body, and what it leaves of the counters -/
theorem countBody_eq (b : Body) (hs : nestingLimit < steps) (u : CompilationUnit) (visits : List Visit) :
    ∃ more, (b.Fits → ∀ v ∈ more, v.Level 0) ∧
      countBody s d steps (u, ⟨0, 0, visits⟩) b = (lowerBody s d u b).map fun u => (u, ⟨0, 0, visits ++ more⟩) := by
  have lower : lowerBody s d u b = (b.lower s d u).map fun r => b.put s u r.1 r.2.variableDecls := rfl
  rw [lower, countBody]
  obtain ⟨fault, hlower, hcount⟩ | ⟨code, st, more, hlower, hcount, level⟩ :=
    b.tallies (s := s) (d := d) (u := u) hs visits ⟨u.variableDecls, []⟩
  · refine ⟨[], by simp, ?_⟩
    rw [Body.lower, hlower, hcount]
    rfl
  · refine ⟨more, fun hb => (level fun _ => hb).2, ?_⟩
    rw [Body.lower, hlower, hcount]
    rfl

theorem countBodies_eq (bs : List Body) (hs : nestingLimit < steps) (u : CompilationUnit) (visits : List Visit) :
    ∃ more, ((∀ b ∈ bs, b.Fits) → ∀ v ∈ more, v.Level 0) ∧
      bs.foldlM (countBody s d steps) (u, ⟨0, 0, visits⟩) =
        (bs.foldlM (lowerBody s d) u).map fun u => (u, ⟨0, 0, visits ++ more⟩) := by
  induction bs generalizing u visits with
  | nil => exact ⟨[], by simp, by rw [List.append_nil]; rfl⟩
  | cons b bs ih =>
    obtain ⟨first, levels, hfirst⟩ := countBody_eq (s := s) (d := d) b hs u visits
    rw [List.foldlM_cons, List.foldlM_cons, hfirst]
    cases lowerBody s d u b with
    | error fault => exact ⟨[], by simp, rfl⟩
    | ok u' =>
      obtain ⟨others, levels', hothers⟩ := ih u' (visits ++ first)
      refine ⟨first ++ others, fun hb v hv => ?_, ?_⟩
      · obtain ⟨hb, hbs⟩ := List.forall_mem_cons.1 hb
        exact (List.mem_append.1 hv).elim (levels hb v) (levels' hbs v)
      · rw [← List.append_assoc]
        exact hothers

/-- **Counting leaves the unit of the tree**, all counters at zero, and visits that are all level when the tree is that of
a file. -/
theorem countTree_eq (s : Source) (root : Node) (hs : nestingLimit < steps) (path : String) :
    ∃ visits, (s.tree? = some root → ∀ v ∈ visits, v.Level 0) ∧
      countTree s steps path root = (ofTree path s root).map fun u => (u, ⟨0, 0, visits⟩) := by
  obtain ⟨visits, levels, counted⟩ := countBodies_eq (s := s) (d := s.declarationsOf root)
    (s.declarationsOf root).bodies.toList hs
    ⟨path, s.package? root, s.imports root, (s.declarationsOf root).types, (s.declarationsOf root).methods,
      (s.declarationsOf root).fields, [], false⟩ []
  refine ⟨visits, fun hroot => levels fun b hb => ?_, ?_⟩
  · exact Source.declarationsOf_fit hroot b (Array.mem_toList_iff.1 hb)
  · rw [ofTree, countTree, ← Array.foldlM_toList, ← Array.foldlM_toList]
    exact counted

end CompilationUnit

/--
**Units have bounded depth.** No expression of the unit of a file is higher than the limit and one. Lowered with counters, a
tree has the same unit, and the counters end as they began. Every node that is visited in a body of a file leaves them as it
found them, with as many scopes open, and its nesting is the number of visits that it lies in. A node at the limit leaves
nothing but an expression without children where one must stand, and all is after it as it was before.
-/
theorem Source.unit_depth [Recovery] (s : Source) (path : String) :
    Safe (s.root.Faulty s) (CompilationUnit.Low (nestingLimit + 1)) (s.unit path) ∧
    (∀ root steps, nestingLimit < steps → ∃ visits : List Visit, (s.tree? = some root → ∀ v ∈ visits, v.Level 0) ∧
      CompilationUnit.countTree s steps path root =
        (CompilationUnit.ofTree path s root).map fun u => (u, ⟨0, 0, visits⟩)) ∧
    ∀ (steps : Nat) (c : LowerContext) (n : Node) (k : Meter) (st : LowerState), nestingLimit ≤ k.nesting →
      let inner : Inner Counted := .ofLevels (steps + 1)
      ∃ v : Visit, v.node = n ∧ v.Level k.nesting ∧
        inner.splice c n k st = .ok (([], { k with visits := k.visits ++ [v] }), st) ∧
        inner.expression c n k st = .ok ((.other n.kind.render [], { k with visits := k.visits ++ [v] }), st) := by
  refine ⟨?_, fun root steps hs => CompilationUnit.countTree_eq s root hs path, fun steps c n k st hk => ?_⟩
  · exact s.unit_of_root path (CompilationUnit.ofTree_low path s s.root) fun _ h => ⟨h.initializers, h.methods, h.blocks⟩
  · exact Inner.ofLevels_cut steps c n hk st

end CallLint
