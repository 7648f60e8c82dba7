/-
Units keep to laws. The bodies of a file are lowered one by one, and `CompilationUnit.Lawful` is the invariant of the fold:
the law holds of all code that is lowered so far, and types and methods are those that were declared. `ofTree_lawful` says
what comes of it: a law that holds where the bodies of a tree are lowered holds of the tree's unit.
-/
import CallLint.Proofs.Correspondence.Placed
import CallLint.Proofs.Laws.Levels
import CallLint.Proofs.References.Declared

namespace CallLint

theorem Source.declarationsOf_sound (s : Source) (root : Node) : (s.declarationsOf root).Sound :=
  Declarations.ofFile_sound s _ root

/-! ## One body -/

namespace Body

open LoweringLaw

variable {L : LoweringLaw} {c : LowerContext} {n m : Node} {vs : Array VariableDecl}

/-- the code of a method, with its parameters -/
theorem routine_upholds (hl : nestingLimit ≤ L.limit) (hn : L.Place c n) :
    Lower.Upholds L.Stops L.State vs (routine (Inner.ofLevels nestingLimit) c n) (L.AllLeave nestingLimit) := by
  have inner := Inner.ofLevels_lawful L nestingLimit hl
  unfold routine
  refine .scoped ?_
  dsimp only
  cases hparams : n.child? .parameters <;> cases hbody : n.child? .body
  case none.none => exact .pure fun _ _ => .nil
  case none.some block => exact inner.children (role hn hbody)
  case some.none list =>
    exact (Lower.Upholds.declareParameters (role hn hparams)).bind fun _ _ _ _ => .pure fun _ _ => .nil
  case some.some list block =>
    exact (Lower.Upholds.declareParameters (role hn hparams)).bind fun _ _ _ _ => inner.children (role hn hbody)

theorem place_of_mem_parts (hn : L.Place c n) (hm : m ∈ parts n) : L.Place c m := by
  unfold parts at hm
  split_ifs at hm
  · obtain ⟨part, hpart, hm⟩ := List.mem_filterMap.1 hm
    rcases List.mem_pair.1 hpart with rfl | rfl
    · exact role hn hm
    · exact role hn hm
  · exact List.mem_singleton.1 hm ▸ hn

/-- **The code of a body keeps to the law**, after whatever was declared before. -/
theorem lower_lawful (hl : nestingLimit ≤ L.limit) {s : Source} {d : Declarations} {u : CompilationUnit} {b : Body}
    (hb : ∀ owner, L.Place ⟨s, d, owner, false⟩ b.node) (hu : L.State ⟨u.variableDecls, []⟩) :
    Safe L.Stops (fun r => L.State r.2 ∧ KeepsVariables u.variableDecls r.2.variableDecls ∧
      L.AllLeave nestingLimit r.2.variableDecls r.1) (b.lower s d u) := by
  have inner := Inner.ofLevels_lawful L nestingLimit hl
  cases b with
  | method id n =>
    rw [lower, code]
    cases u.methodAt? id with
    | none => exact ⟨hu, .refl _, .nil⟩
    | some m => exact routine_upholds hl (hb m.owner) _ hu (.refl _)
  | field id owner value =>
    refine (inner.expression ⟨s, d, owner, false⟩ value _ (hb owner) _ hu (.refl _)).bind fun r hr => ?_
    obtain ⟨hst, hk, he⟩ := hr
    exact ⟨hst, hk, .singleton (L.leaves_of_gives he)⟩
  | block owner n =>
    have code : Lower.Upholds L.Stops L.State u.variableDecls
        (Lower.inScope ((parts n).mapM ((Inner.ofLevels nestingLimit).children ⟨s, d, owner, false⟩))) fun ws ess =>
          ∀ es ∈ ess, L.AllLeave nestingLimit ws es :=
      .scoped (.mapM (fun m hm _ => inner.children (place_of_mem_parts (hb owner) hm)) fun _ _ hk _ hes => hes.later hk)
    refine (code _ hu (.refl _)).bind fun r hr => ?_
    obtain ⟨hst, hk, hess⟩ := hr
    exact ⟨hst, hk, .flatten hess⟩

end Body

/-! ## Bodies one by one -/

namespace CompilationUnit

/-- a method without its body -/
def header (m : MethodDecl) : MethodDecl :=
  { m with body := none }

/-- the unit has the types and methods of the declarations, and the law holds of the code that is lowered so far -/
structure Lawful (L : LoweringLaw) (d : Declarations) (u : CompilationUnit) : Prop where
  types : u.types = d.types
  headers : ∀ i : Nat, u.methods[i]?.map header = d.methods[i]?.map header
  state : L.State ⟨u.variableDecls, []⟩
  methodBodies : ∀ m ∈ u.methods, ∀ es, m.body = some es → L.AllLeave L.limit u.variableDecls es
  blocks : ∀ b ∈ u.blocks, b.owner.index < d.types.size ∧ L.AllLeave L.limit u.variableDecls b.body

variable {L : LoweringLaw} {s : Source} {d : Declarations} {u : CompilationUnit} {b : Body} {st : LowerState}

/-- more variables change nothing for the code that is there -/
theorem Lawful.withVariables (h : u.Lawful L d) (hst : L.State st) (hk : KeepsVariables u.variableDecls st.variableDecls) :
    Lawful L d { u with variableDecls := st.variableDecls } where
  types := h.types
  headers := h.headers
  state := by simpa using L.closed st st.scopes.length hst
  methodBodies m hm es hes := (h.methodBodies m hm es hes).later hk
  blocks b hb := ⟨(h.blocks b hb).1, (h.blocks b hb).2.later hk⟩

/-- the code of a body is put where it belongs -/
theorem Lawful.put (h : u.Lawful L d) (hb : b.InRange d) (hst : L.State st)
    (hk : KeepsVariables u.variableDecls st.variableDecls) {code : List Expr}
    (hcode : L.AllLeave L.limit st.variableDecls code) : (b.put s u code st.variableDecls).Lawful L d := by
  have grown := h.withVariables hst hk
  cases b with
  | method id n =>
    have bodies : ∀ m ∈ u.methods.modify id.index (fun m => { m with body := some code }), ∀ es, m.body = some es →
        L.AllLeave L.limit st.variableDecls es := by
      refine forall_mem_modify grown.methodBodies (fun _ hes => hes) fun m _ es hes => ?_
      cases hes
      exact hcode
    refine { grown with headers := fun i => ?_, methodBodies := bodies }
    change (u.methods.modify id.index _)[i]?.map header = _
    rw [Array.getElem?_modify, ← h.headers]
    split
    · rw [Option.map_map]
      rfl
    · rfl
  | field id owner value =>
    have keeps := KeepsVariables.modify st.variableDecls id.index code.head?
    have state := L.initialized id.index grown.state fun e he => hcode e (List.mem_of_mem_head? he)
    exact grown.withVariables state keeps
  | block owner n =>
    refine { grown with blocks := fun b hb' => ?_ }
    rcases List.mem_append.1 hb' with hb' | hb'
    · exact grown.blocks b hb'
    · obtain rfl := List.mem_singleton.1 hb'
      exact ⟨hb, hcode⟩

/-- a method that is declared is in the unit -/
theorem Lawful.method (h : u.Lawful L d) {id : MethodId} {m : MethodDecl} (hm : d.methods[id.index]? = some m) :
    ∃ m', u.methodAt? id = some m' ∧ header m' = header m := by
  have same := h.headers id.index
  rw [hm] at same
  exact Option.map_eq_some_iff.1 same

/-- a method in the unit is one that is declared -/
theorem Lawful.declared (h : u.Lawful L d) {m : MethodDecl} (hm : m ∈ u.methods) :
    ∃ m' ∈ d.methods, header m = header m' := by
  obtain ⟨i, hi⟩ := Array.mem_iff_getElem?.1 hm
  have same := h.headers i
  rw [hi] at same
  obtain ⟨m', hm', heq⟩ := Option.map_eq_some_iff.1 same.symm
  exact ⟨m', Array.mem_of_getElem? hm', heq.symm⟩

/-- one step of the fold over the bodies -/
theorem lowerBody_lawful (hl : nestingLimit ≤ L.limit) (h : u.Lawful L d) (hb : b.InRange d)
    (hplace : ∀ owner, L.Place ⟨s, d, owner, false⟩ b.node) : Safe L.Stops (Lawful L d) (lowerBody s d u b) := by
  rw [lowerBody]
  refine (b.lower_lawful hl hplace h.state).bind fun r hr => ?_
  obtain ⟨hst, hk, hcode⟩ := hr
  exact h.put hb hst hk (hcode.mono hl (.refl _))

theorem lowerBodies_lawful (hl : nestingLimit ≤ L.limit) (h : u.Lawful L d) {bs : List Body}
    (hb : ∀ b ∈ bs, b.InRange d) (hplace : ∀ b ∈ bs, ∀ owner, L.Place ⟨s, d, owner, false⟩ b.node) :
    Safe L.Stops (Lawful L d) (bs.foldlM (lowerBody s d) u) := by
  induction bs generalizing u with
  | nil => exact h
  | cons b bs ih =>
    rw [List.foldlM_cons]
    refine (lowerBody_lawful hl h (hb b List.mem_cons_self) (hplace b List.mem_cons_self)).bind fun u' hu' => ?_
    exact ih hu' (fun b hb' => hb b (List.mem_cons_of_mem _ hb')) fun b hb' => hplace b (List.mem_cons_of_mem _ hb')

/-! ## The whole unit -/

/-- before the first body is lowered there is no code -/
theorem headers_lawful (hd : d.Sound) (hfields : L.State ⟨d.fields, []⟩) (path : String) (package : Option String)
    (imports : List Import) : (d.headers path package imports).Lawful L d where
  types := rfl
  headers _ := rfl
  state := hfields
  methodBodies m hm es hes := by
    rw [(hd.methods m hm).2] at hes
    cases hes
  blocks := nofun

/-- **A law that holds where the bodies of a tree are lowered holds of the tree's unit.** -/
theorem ofTree_lawful {root : Node} (hl : nestingLimit ≤ L.limit) (hfields : L.State ⟨(s.declarationsOf root).fields, []⟩)
    (hplace : ∀ b ∈ (s.declarationsOf root).bodies, ∀ owner, L.Place ⟨s, s.declarationsOf root, owner, false⟩ b.node)
    (path : String) : Safe L.Stops (Lawful L (s.declarationsOf root)) (ofTree path s root) := by
  have hd := s.declarationsOf_sound root
  have start := headers_lawful hd hfields path (s.package? root) (s.imports root)
  unfold ofTree
  dsimp only
  rw [← Array.foldlM_toList]
  exact lowerBodies_lawful hl start (fun b hb => hd.bodies b (Array.mem_toList_iff.1 hb)) fun b hb =>
    hplace b (Array.mem_toList_iff.1 hb)

end CompilationUnit

end CallLint
