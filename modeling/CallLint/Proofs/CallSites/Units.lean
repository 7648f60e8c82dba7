/-
The calls of a unit. Bodies are lowered one by one into methods, fields and initializer blocks, and a walk visits these by
their starts; `Lowered` is the invariant of the fold, and `ofTree_calls` says what comes of it: what is written at the
calls of a unit, in the order of the walk, is what is kept of its tree, in the order of the text.
-/
import CallLint.Proofs.CallSites.Bodies
import CallLint.Proofs.Grammar.Trees
import CallLint.Source.Analysis

namespace CallLint

namespace CompilationUnit

/-! ## Sorted roots -/

/-- the bodies of a unit with what is written in them, by the bytes at which they start -/
def entries (u : CompilationUnit) : List (Nat × List Written) :=
  (u.methodRoots ++ u.fieldRoots ++ u.blockRoots).map fun root => (root.1, writtenIn root.2)

/-- no two bodies start together, so their order is that of their starts -/
theorem eq_of_ascending {es fs : List (Nat × List Written)} (hp : fs.Perm es) (hs : fs.Pairwise fun a b => a.1 ≤ b.1)
    (ha : (es.map (·.1)).Pairwise (· < ·)) : fs = es := by
  have ascending : es.Pairwise fun a b => a.1 < b.1 := List.pairwise_map.1 ha
  refine hp.eq_of_pairwise (fun a b hin hb (hab : a.1 ≤ b.1) (hba : b.1 ≤ a.1) => ?_) hs
    (ascending.imp fun h => h.le)
  refine List.inj_on_of_nodup_map (f := (·.1)) ?_ (hp.mem_iff.1 hin) hb (hab.antisymm hba)
  exact ha.imp fun h => h.ne

/-- a walk visits the bodies by their starts -/
theorem calls_written {u : CompilationUnit} {es : List (Nat × List Written)} (hp : u.entries.Perm es)
    (ha : (es.map (·.1)).Pairwise (· < ·)) : u.calls.map Call.written = es.flatMap (·.2) := by
  let all := u.methodRoots ++ u.fieldRoots ++ u.blockRoots
  let sorted := all.mergeSort fun a b => a.1 ≤ b.1
  -- the roots are sorted as bodies, the entries are compared as what is written in them
  have pairwise : sorted.Pairwise fun a b => a.1 ≤ b.1 := by
    have h : sorted.Pairwise fun a b => decide (a.1 ≤ b.1) :=
      List.pairwise_mergeSort (fun a b c => by simpa using le_trans) (fun a b => by simpa using le_total a.1 b.1) all
    exact h.imp fun h => by simpa using h
  have same : sorted.map (fun root => (root.1, writtenIn root.2)) = es :=
    eq_of_ascending (((List.mergeSort_perm _ _).map _).trans hp) (List.pairwise_map.2 pairwise) ha
  have roots : u.roots = sorted.map (·.2) := rfl
  rw [calls_eq, List.map_flatMap, roots, List.flatMap_map, ← same, List.flatMap_map]
  rfl

/-! ## One body -/

/-- a list in which one more item gives something -/
theorem filterMap_modify_perm {α β : Type} {l : List α} {i : Nat} {f : α → α} {g : α → Option β} {a : α} {b : β}
    (h : l[i]? = some a) (hg : g a = none) (hf : g (f a) = some b) :
    ((l.modify i f).filterMap g).Perm (b :: l.filterMap g) := by
  obtain ⟨hi, rfl⟩ := List.getElem?_eq_some_iff.1 h
  obtain ⟨before, x, after, hl, hlen, hmod⟩ := List.exists_of_modify f hi
  have hx : l[i] = x := by simp [hl, ← hlen]
  rw [hx] at hg hf
  rw [hmod, hl, List.filterMap_append, List.filterMap_append, List.filterMap_cons_some hf, List.filterMap_cons_none hg]
  exact List.perm_middle

/-- variables that are no fields have no code of their own -/
theorem filterMap_fieldRoot? {vs ws : List VariableDecl} (hw : ∀ v ∈ ws, v.kind ≠ .field) :
    (vs ++ ws).filterMap fieldRoot? = vs.filterMap fieldRoot? := by
  have none : ws.filterMap fieldRoot? = [] := by
    refine List.filterMap_eq_nil_iff.2 fun v hv => ?_
    rw [fieldRoot?, if_neg (by simpa using hw v hv)]
  rw [List.filterMap_append, none, List.append_nil]

/-- one more body has its code, and other bodies still await theirs -/
structure Lowered (b : Body) (start : Nat) (w : List Written) (u u' : CompilationUnit) : Prop where
  entries : u'.entries.Perm ((start, w) :: u.entries)
  awaits : ∀ (b' : Body) (start' : Nat), b.Apart b' → b'.Awaits u.methods.toList u.variableDecls.toList start' →
    b'.Awaits u'.methods.toList u'.variableDecls.toList start'

theorem entries_perm {u u' : CompilationUnit} {start : Nat} {code : List Expr}
    (h : (u'.methodRoots ++ u'.fieldRoots ++ u'.blockRoots).Perm
      ((start, code) :: (u.methodRoots ++ u.fieldRoots ++ u.blockRoots))) :
    u'.entries.Perm ((start, writtenIn code) :: u.entries) :=
  h.map _

/-- fields keep their places while variables that are no fields are declared -/
theorem grown {u : CompilationUnit} {st : LowerState} (h : (LowerState.mk u.variableDecls []).Grows st) :
    st.variableDecls.toList.filterMap fieldRoot? = u.fieldRoots ∧
      ∀ (b : Body) (start : Nat), b.Awaits u.methods.toList u.variableDecls.toList start →
        b.Awaits u.methods.toList st.variableDecls.toList start := by
  obtain ⟨vs, hvs, hv⟩ := h
  dsimp only at hvs
  constructor
  · rw [hvs, filterMap_fieldRoot? hv, fieldRoots_eq]
  · intro b start hb
    have hb := hb.append [] vs
    rwa [← hvs, List.append_nil] at hb

variable {s : Source} {d : Declarations} {u : CompilationUnit} {b : Body} {start : Nat} {st : LowerState}

theorem lowered_method {id : MethodId} {n : Node} (code : List Expr)
    (h : (Body.method id n).Awaits u.methods.toList u.variableDecls.toList start)
    (hst : (LowerState.mk u.variableDecls []).Grows st) :
    Lowered (.method id n) start (writtenIn code) u { u with
      variableDecls := st.variableDecls
      methods := u.methods.modify id.index fun m => { m with body := some code } } := by
  obtain ⟨m, hm, hbody, rfl⟩ := h
  obtain ⟨fields, awaits⟩ := grown hst
  refine ⟨entries_perm ?_, fun b' start' hapart hb' => ?_⟩
  · have one := filterMap_modify_perm (f := fun m : MethodDecl => { m with body := some code })
      (g := fun m => m.body.map fun body => (m.span.startByte, body)) hm (by simp [hbody]) rfl
    rw [fieldRoots_eq, fields, methodRoots, Array.toList_modify]
    exact (one.append_right _).append_right _
  · have hb' := awaits b' start' hb'
    cases b' with
    | method id' n' =>
      obtain ⟨m', hm', h'⟩ := hb'
      exact ⟨m', by rw [Array.toList_modify, List.getElem?_modify_ne _ _ hapart, hm'], h'⟩
    | field id' owner' value' => exact hb'
    | block owner' n' => exact hb'

theorem lowered_field {id : VariableId} {owner : TypeId} {value : Node} (code : Expr)
    (h : (Body.field id owner value).Awaits u.methods.toList u.variableDecls.toList start)
    (hst : (LowerState.mk u.variableDecls []).Grows st) :
    Lowered (.field id owner value) start code.written u { u with
      variableDecls := st.variableDecls.modify id.index fun v => { v with initializer := some code } } := by
  obtain ⟨fields, awaits⟩ := grown hst
  obtain ⟨v, hv, hfield, hinit, rfl⟩ := awaits _ _ h
  rw [← writtenIn_singleton]
  refine ⟨entries_perm ?_, fun b' start' hapart hb' => ?_⟩
  · have one := filterMap_modify_perm (f := fun v : VariableDecl => { v with initializer := some code })
      (g := fieldRoot?) (b := (v.span.startByte, [code])) hv (by simp [fieldRoot?, hinit]) (by simp [fieldRoot?, hfield])
    rw [fields] at one
    rw [fieldRoots_eq, Array.toList_modify]
    exact ((one.append_left _).trans List.perm_middle).append_right _
  · have hb' := awaits b' start' hb'
    cases b' with
    | method id' n' => exact hb'
    | field id' owner' value' =>
      obtain ⟨v', hv', h'⟩ := hb'
      exact ⟨v', by rw [Array.toList_modify, List.getElem?_modify_ne _ _ hapart, hv'], h'⟩
    | block owner' n' => exact hb'

theorem lowered_block (s : Source) (owner : TypeId) (n : Node) (code : List Expr)
    (hst : (LowerState.mk u.variableDecls []).Grows st) :
    Lowered (.block owner n) n.start (writtenIn code) u { u with
      variableDecls := st.variableDecls
      blocks := u.blocks ++ [⟨owner, code, s.spanOf n⟩] } := by
  obtain ⟨fields, awaits⟩ := grown hst
  refine ⟨entries_perm ?_, fun b' start' _ hb' => awaits b' start' hb'⟩
  rw [fieldRoots_eq, fields, blockRoots, List.map_append, ← List.append_assoc]
  exact List.perm_append_singleton _ _

/-! ## The code of a body -/

section Code

open Lower

variable {c : LowerContext} {n : Node}

theorem routine_yields (hc : c.source = s) (hn : n.Shaped)
    (hk : n.kind = .methodDeclaration ∨ n.kind = .constructorDeclaration ∨ n.kind = .compactConstructorDeclaration) :
    Yields (n.Faulty s) (Body.routine (Inner.ofLevels nestingLimit) c n) fun es => writtenIn es = n.kept s .routine := by
  rw [hn.kept_routine hk, Node.keptIn]
  refine Yields.inScope ?_
  dsimp only
  cases hb : n.child? .body with
  | none =>
    cases n.child? .parameters with
    | none => exact .pure rfl
    | some list => exact (Yields.declareParameters c list).bind fun _ _ => .pure rfl
  | some block =>
    have hmem := Node.child?_mem hb
    have group := ((Inner.lowers_body s).group hc (hn.child hmem)).mono (Node.Faulty.inside hmem) fun _ => id
    rw [Option.toList_some, List.flatMap_singleton]
    cases n.child? .parameters with
    | none => exact group
    | some list => exact (Yields.declareParameters c list).bind fun _ _ => group

theorem block_yields (hc : c.source = s) (hn : n.Shaped) (owner : TypeId) :
    Yields (n.Faulty s) (Lower.inScope ((Body.parts n).mapM ((Inner.ofLevels nestingLimit).children c))) fun ess =>
      writtenIn ess.flatten = n.kept s (Body.block owner n).position := by
  have top := Inner.lowers_body s
  have parts (ms : List Node) (hms : ∀ m ∈ ms, m.Shaped ∧ (m.Faulty s → n.Faulty s)) :
      Yields (n.Faulty s) (Lower.inScope (ms.mapM ((Inner.ofLevels nestingLimit).children c)))
        fun ess => writtenIn ess.flatten = ms.flatMap (·.kept s (.group 0)) := by
    refine Yields.inScope ((Yields.mapM (g := writtenIn) (h := (·.kept s (.group 0))) fun m hm => ?_).imp fun ess hess => ?_)
    · exact (top.group hc (hms m hm).1).mono (hms m hm).2 fun _ => id
    · rw [writtenIn_flatten, hess]
  by_cases hk : n.kind = .enumConstant
  · rw [Body.parts, if_pos (by simp [hk]), Body.position, if_pos hk, hn.kept_constant hk, Node.keptIn, Node.keptIn]
    refine (parts _ fun m hm => ?_).imp fun ess hess => ?_
    · have hmem : m ∈ n.children := by
        obtain ⟨part, hpart, hm⟩ := List.mem_filterMap.1 hm
        rcases List.mem_pair.1 hpart with rfl | rfl
        · exact Node.child?_mem hm
        · exact Node.child?_mem hm
      exact ⟨hn.child hmem, .inside hmem⟩
    · rw [hess]
      cases n.child? .arguments <;> cases n.child? .body <;> simp
  · rw [Body.parts, if_neg (by simpa using hk), Body.position, if_neg hk]
    simpa using parts [n] fun m hm => by simp_all

end Code

/-! ## All bodies -/

/-- one step of the fold over the bodies -/
theorem lowerBody_lowered (hb : b.Shaped) (ha : b.Awaits u.methods.toList u.variableDecls.toList start) :
    Safe (b.node.Faulty s) (Lowered b start (b.kept s) u) (lowerBody s d u b) := by
  cases b with
  | method id n =>
    have found : ∃ m, u.methodAt? id = some m := by
      obtain ⟨m, hm, -⟩ := ha
      exact ⟨m, by rw [methodAt?, ← Array.getElem?_toList, hm]⟩
    obtain ⟨m, hm⟩ := found
    have code := routine_yields (c := ⟨s, d, m.owner, false⟩) rfl hb.1 hb.2
    rw [lowerBody, Body.lower, Body.code, hm]
    refine (code ⟨u.variableDecls, []⟩).bind fun ⟨body, st⟩ ⟨hbody, hst⟩ => ?_
    have lowered := lowered_method body ha hst
    rwa [hbody] at lowered
  | field id owner value =>
    have code : Lower.Yields (value.Faulty s)
        ((Body.field id owner value).code (Inner.ofLevels nestingLimit) s d u)
        fun es => ∃ init, es = [init] ∧ init.written = value.kept s (Body.field id owner value).position :=
      ((Inner.lowers_body s).expression ⟨s, d, owner, false⟩ value rfl hb).bind fun init hinit => .pure ⟨init, rfl, hinit⟩
    rw [lowerBody, Body.lower]
    refine (code ⟨u.variableDecls, []⟩).bind fun ⟨es, st⟩ ⟨⟨init, hes, hinit⟩, hst⟩ => ?_
    subst hes
    have lowered := lowered_field init ha hst
    rwa [hinit] at lowered
  | block owner n =>
    have code : Lower.Yields (n.Faulty s) ((Body.block owner n).code (Inner.ofLevels nestingLimit) s d u)
        fun es => writtenIn es = n.kept s (Body.block owner n).position :=
      (block_yields (c := ⟨s, d, owner, false⟩) rfl hb owner).bind fun _ hess => .pure hess
    rw [lowerBody, Body.lower]
    refine (code ⟨u.variableDecls, []⟩).bind fun ⟨es, st⟩ ⟨hes, hst⟩ => ?_
    have lowered := lowered_block s owner n es hst
    obtain rfl : n.start = start := ha
    rwa [hes] at lowered

/-- **All bodies are lowered**, or one of them is faulty. -/
theorem lowerBodies_lowered {bs : List (Body × Nat)} (hb : ∀ b ∈ bs, b.1.Shaped)
    (ha : ∀ b ∈ bs, b.1.Awaits u.methods.toList u.variableDecls.toList b.2)
    (hapart : bs.Pairwise fun a b => a.1.Apart b.1) :
    Safe (∃ b ∈ bs, b.1.node.Faulty s) (fun u' => u'.entries.Perm (u.entries ++ bs.map fun b => (b.2, b.1.kept s)))
      ((bs.map (·.1)).foldlM (lowerBody s d) u) := by
  induction bs generalizing u with
  | nil => simp [Safe, Pure.pure, Except.pure]
  | cons b bs ih =>
    rw [List.map_cons, List.map_cons, List.foldlM_cons]
    have one := lowerBody_lowered (s := s) (d := d) (hb b List.mem_cons_self) (ha b List.mem_cons_self)
    refine (one.mono (fun hf => ⟨b, List.mem_cons_self, hf⟩) fun _ => id).bind fun u' hu' => ?_
    -- the bodies that are left still await their code, since the first one belongs to another declaration
    have others := ih (u := u') (fun b hb' => hb b (List.mem_cons_of_mem _ hb'))
      (fun b' hb' => hu'.awaits b'.1 b'.2 (List.rel_of_pairwise_cons hapart hb') (ha b' (List.mem_cons_of_mem _ hb')))
      (List.Pairwise.of_cons hapart)
    refine others.mono (fun ⟨b', hb', hf⟩ => ⟨b', List.mem_cons_of_mem _ hb', hf⟩) fun u'' hu'' => ?_
    exact hu''.trans ((hu'.entries.append_right _).trans List.perm_middle.symm)

/-! ## What bodies leave as it is -/

/-- the units differ in no more than code, blocks and variables -/
structure SameHead (u u' : CompilationUnit) : Prop where
  path : u'.path = u.path
  package : u'.package = u.package
  imports : u'.imports = u.imports
  types : u'.types = u.types
  hasParseErrors : u'.hasParseErrors = u.hasParseErrors

theorem SameHead.refl (u : CompilationUnit) : u.SameHead u :=
  ⟨rfl, rfl, rfl, rfl, rfl⟩

theorem SameHead.trans {u u' u'' : CompilationUnit} (h : u.SameHead u') (k : u'.SameHead u'') : u.SameHead u'' :=
  ⟨k.path.trans h.path, k.package.trans h.package, k.imports.trans h.imports, k.types.trans h.types,
    k.hasParseErrors.trans h.hasParseErrors⟩

theorem lowerBody_sameHead (s : Source) (d : Declarations) (u : CompilationUnit) (b : Body) :
    Safe True (SameHead u) (lowerBody s d u b) := by
  rw [lowerBody]
  cases b.lower s d u with
  | error fault => trivial
  | ok r => cases b <;> exact ⟨rfl, rfl, rfl, rfl, rfl⟩

theorem lowerBodies_sameHead (s : Source) (d : Declarations) (u : CompilationUnit) (bs : List Body) :
    Safe True (SameHead u) (bs.foldlM (lowerBody s d) u) := by
  induction bs generalizing u with
  | nil => exact SameHead.refl u
  | cons b bs ih =>
    rw [List.foldlM_cons]
    exact (lowerBody_sameHead s d u b).bind fun u' h => (ih u').mono id fun _ h' => h.trans h'

/-- before the first body is lowered no declaration has code -/
theorem entries_of_headers {u : CompilationUnit} (hm : ∀ m ∈ u.methods.toList, m.body = none)
    (hf : ∀ v ∈ u.variableDecls.toList, v.kind = .field ∧ v.initializer = none) (hb : u.blocks = []) :
    u.entries = [] := by
  have methods : u.methodRoots = [] := by
    refine List.filterMap_eq_nil_iff.2 fun m hm' => ?_
    rw [hm m hm', Option.map_none]
  have fields : u.fieldRoots = [] := by
    refine List.filterMap_eq_nil_iff.2 fun v hv => ?_
    rw [(hf v (List.mem_of_mem_filter hv)).2, Option.map_none]
  rw [entries, methods, fields, blockRoots, hb]
  rfl

/-- the bodies of a tree's unit, with their starts in the order of the text -/
theorem ofTree_entries {root : Node} (hn : root.Shaped) (ho : root.InOrder) (path : String) :
    Safe (root.Faulty s)
      (fun u => ∃ es : List (Nat × List Written), u.entries.Perm es ∧ (es.map (·.1)).Pairwise (· < ·) ∧
        es.flatMap (·.2) = root.kept s .file)
      (ofTree path s root) := by
  let d := Declarations.ofFile s (NameTable.ofImports (s.package? root) (s.imports root)) root
  obtain ⟨bs, hc, hw, hg⟩ : Gathers s (root.Faulty s) root.start root.stop _ _ d :=
    Declarations.ofFile_gathers hn ho _
  let u : CompilationUnit := ⟨path, s.package? root, s.imports root, d.types, d.methods, d.fields, [], false⟩
  have bodies : d.bodies.toList = bs.map (·.1) := hc.bodies
  have headers : u.entries = [] := by
    obtain ⟨ms, hms, hbody⟩ := hc.methods
    obtain ⟨vs, hvs, hinit⟩ := hc.fields
    refine entries_of_headers (fun m hm => hbody m ?_) (fun v hv => hinit v ?_) rfl
    · simpa [hms, Declarations.ofNames] using (show m ∈ d.methods.toList from hm)
    · simpa [hvs, Declarations.ofNames] using (show v ∈ d.fields.toList from hv)
  have all : Safe (∃ b ∈ bs, b.1.node.Faulty s) _ ((bs.map (·.1)).foldlM (lowerBody s d) u) :=
    lowerBodies_lowered (fun b hb => (hg b hb).1) hc.awaits hc.apart
  change Safe _ _ (d.bodies.foldlM (lowerBody s d) u)
  rw [← Array.foldlM_toList, bodies]
  refine all.mono (fun ⟨b, hb, hf⟩ => (hg b hb).2 hf) fun u' hu' => ?_
  rw [headers, List.nil_append] at hu'
  refine ⟨_, hu', ?_, by rw [List.flatMap_map, hw]⟩
  rw [List.map_map]
  exact hc.starts.pairwise

/-- **The calls of a tree's unit** are what is kept of the tree. -/
theorem ofTree_calls {root : Node} (hn : root.Shaped) (ho : root.InOrder) (path : String) :
    Safe (root.Faulty s) (fun u => u.calls.map Call.written = root.kept s .file) (ofTree path s root) := by
  refine (ofTree_entries hn ho path).mono id fun u ⟨es, hp, hs, hw⟩ => ?_
  rw [calls_written hp hs, hw]

end CompilationUnit

end CallLint
