/-
Where lowered bodies are put. Each body is lowered with the variables that are there before it, and the variables that it
declares come after these. So a unit is its headers with a list of lowered bodies put into it (`lowerBodies_placed`), and
each method, field and local variable of the unit is found in the headers and that list.
-/
import CallLint.Proofs.CallSites.Bodies
import CallLint.Proofs.Correspondence.Actions
import CallLint.Source.Analysis

namespace CallLint

/-! ## One body -/

namespace Body

/-- the method of the body -/
def method? : Body → Option MethodId
  | .method id _ => some id
  | _ => none

/-- the field of the body -/
def field? : Body → Option VariableId
  | .field id _ _ => some id
  | _ => none

theorem Apart.method_ne {b b' : Body} (h : b.Apart b') {id : MethodId} (hb : b.method? = some id) :
    b'.method? ≠ some id := by
  cases b <;> cases b' <;> simp_all [method?, Apart]
  exact fun h' => h (congrArg MethodId.index h'.symm)

theorem Apart.field_ne {b b' : Body} (h : b.Apart b') {id : VariableId} (hb : b.field? = some id) :
    b'.field? ≠ some id := by
  cases b <;> cases b' <;> simp_all [field?, Apart]
  exact fun h' => h (congrArg VariableId.index h'.symm)

theorem Apart.symm {b b' : Body} (h : b.Apart b') : b'.Apart b := by
  cases b <;> cases b' <;> first | exact Ne.symm h | trivial

end Body

/-! ## All bodies -/

/-- a lowered body, with the variables declared in it and the index of the first of these -/
structure Placed where
  body : Body
  code : List Expr
  base : Nat
  locals : List VariableDecl

/-- puts a lowered body into a unit -/
def Placed.put (s : Source) (u : CompilationUnit) (p : Placed) : CompilationUnit :=
  p.body.put s u p.code (u.variableDecls.toList ++ p.locals).toArray

theorem Placed.put_eq (s : Source) (u : CompilationUnit) (b : Body) (code : List Expr) {vars : Array VariableDecl}
    {locals : List VariableDecl} (h : vars.toList = u.variableDecls.toList ++ locals) :
    b.put s u code vars = Placed.put s u ⟨b, code, u.variableDecls.size, locals⟩ := by
  rw [Placed.put, ← h, Array.toArray_toList]

/-- the initializer block of a lowered body -/
def Placed.block? (s : Source) (p : Placed) : Option InitializerBlock :=
  match p.body with
  | .block owner n => some ⟨owner, p.code, s.spanOf n⟩
  | _ => none

/-- lowered bodies whose variables come one after the other from an index on -/
def PlacedFrom : Nat → List Placed → Prop
  | _, [] => True
  | base, p :: ps => p.base = base ∧ PlacedFrom (base + p.locals.length) ps

/-- the methods and fields of a file are in the unit, with what bodies need to know of them -/
structure CompilationUnit.Headed (d : Declarations) (u : CompilationUnit) : Prop where
  methods : ∀ {id : MethodId} {m : MethodDecl}, d.methods[id.index]? = some m →
    ∃ w, u.methodAt? id = some w ∧ w.owner = m.owner
  fields : ∀ {id : VariableId} {v : VariableDecl}, d.fields[id.index]? = some v →
    ∃ w, u.variableAt? id = some w ∧ w.declaredType = v.declaredType

/-- a unit with the declarations of a file, before its bodies are lowered -/
def Declarations.headers (d : Declarations) (path : String) (package : Option String) (imports : List Import) :
    CompilationUnit :=
  ⟨path, package, imports, d.types, d.methods, d.fields, [], false⟩

theorem Declarations.headers_headed (d : Declarations) (path : String) (package : Option String)
    (imports : List Import) : (d.headers path package imports).Headed d :=
  ⟨fun hm => ⟨_, hm, rfl⟩, fun hv => ⟨_, hv, rfl⟩⟩

/-- how a body was lowered in a file -/
def Placed.Ran (s : Source) (d : Declarations) (p : Placed) : Prop :=
  ∃ v st, CompilationUnit.Headed d v ∧ v.variableDecls.size = p.base ∧ p.body.lower s d v = .ok (p.code, st) ∧
    st.variableDecls.toList = v.variableDecls.toList ++ p.locals

namespace CompilationUnit

variable {s : Source} {d : Declarations} {u : CompilationUnit}

theorem methodAt?_put (s : Source) (u : CompilationUnit) (p : Placed) (id : MethodId) :
    (p.put s u).methodAt? id =
      if p.body.method? = some id then (u.methodAt? id).map fun m => { m with body := some p.code }
      else u.methodAt? id := by
  obtain ⟨body, code, base, locals⟩ := p
  cases body with
  | method id' n =>
    rw [Placed.put, Body.put, methodAt?, methodAt?, Array.getElem?_modify]
    have same : (id'.index = id.index) ↔ (some id' = some id) := by
      cases id
      cases id'
      simp
    exact if_congr same rfl rfl
  | field _ _ _ => rfl
  | block _ _ => rfl

theorem variableAt?_put (s : Source) (u : CompilationUnit) (p : Placed) (id : VariableId) :
    (p.put s u).variableAt? id =
      if p.body.field? = some id then
        (u.variableDecls.toList ++ p.locals)[id.index]?.map fun v => { v with initializer := p.code.head? }
      else (u.variableDecls.toList ++ p.locals)[id.index]? := by
  obtain ⟨body, code, base, locals⟩ := p
  cases body with
  | field id' owner value =>
    rw [Placed.put, Body.put, variableAt?, Array.getElem?_modify, List.getElem?_toArray]
    have same : (id'.index = id.index) ↔ (some id' = some id) := by
      cases id
      cases id'
      simp
    exact if_congr same rfl rfl
  | method _ _ => simp [Placed.put, Body.put, variableAt?, Body.field?]
  | block _ _ => simp [Placed.put, Body.put, variableAt?, Body.field?]

theorem size_put (s : Source) (u : CompilationUnit) (p : Placed) :
    (p.put s u).variableDecls.size = u.variableDecls.size + p.locals.length := by
  obtain ⟨body, code, base, locals⟩ := p
  cases body <;> simp [Placed.put, Body.put]

theorem Headed.put (h : u.Headed d) (p : Placed) : (p.put s u).Headed d where
  methods {id m} hm := by
    obtain ⟨w, hw, howner⟩ := h.methods hm
    rw [methodAt?_put, hw]
    split_ifs
    · exact ⟨_, rfl, howner⟩
    · exact ⟨w, rfl, howner⟩
  fields {id v} hv := by
    obtain ⟨w, hw, htype⟩ := h.fields hv
    rw [variableAt?, ← Array.getElem?_toList] at hw
    rw [variableAt?_put, List.getElem?_append_left (List.getElem?_eq_some_iff.1 hw).1, hw]
    split_ifs
    · exact ⟨_, rfl, htype⟩
    · exact ⟨w, rfl, htype⟩

/-- **A unit is its headers with the lowered bodies**, when no body has a fault and bodies only add variables. -/
theorem lowerBodies_placed {bs : List Body}
    (hgrow : ∀ b ∈ bs, ∀ v, Headed d v → ∀ code st, b.lower s d v = .ok (code, st) →
      ∃ ls, st.variableDecls.toList = v.variableDecls.toList ++ ls)
    (hu : u.Headed d) :
    Safe (∃ b ∈ bs, ∃ v f, Headed d v ∧ b.lower s d v = .error f)
      (fun u' => ∃ ps : List Placed, ps.map (·.body) = bs ∧ PlacedFrom u.variableDecls.size ps ∧
        (∀ p ∈ ps, p.Ran s d) ∧ u' = ps.foldl (Placed.put s) u)
      (bs.foldlM (lowerBody s d) u) := by
  induction bs generalizing u with
  | nil => exact ⟨[], rfl, trivial, by simp, rfl⟩
  | cons b bs ih =>
    rw [List.foldlM_cons, lowerBody]
    cases hr : b.lower s d u with
    | error f => exact ⟨b, List.mem_cons_self, u, f, hu, hr⟩
    | ok r =>
      obtain ⟨code, st⟩ := r
      obtain ⟨ls, hls⟩ := hgrow b List.mem_cons_self u hu code st hr
      let p : Placed := ⟨b, code, u.variableDecls.size, ls⟩
      have others := ih (fun b hb => hgrow b (List.mem_cons_of_mem _ hb)) (hu.put (s := s) p)
      change Safe _ _ (bs.foldlM (lowerBody s d) (b.put s u code st.variableDecls))
      rw [Placed.put_eq s u b code hls]
      refine others.mono (fun ⟨b, hb, h⟩ => ⟨b, List.mem_cons_of_mem _ hb, h⟩) fun u' ⟨ps, hps, hfrom, hran, heq⟩ => ?_
      refine ⟨p :: ps, congrArg (b :: ·) hps, ⟨rfl, by rwa [size_put] at hfrom⟩, ?_, heq⟩
      intro q hq
      rcases List.mem_cons.1 hq with rfl | hq
      · exact ⟨u, st, hu, rfl, hr, hls⟩
      · exact hran q hq

/-! ## What is found where -/

variable {ps : List Placed}

theorem methodAt?_of_none (u : CompilationUnit) {id : MethodId} (h : ∀ p ∈ ps, p.body.method? ≠ some id) :
    (ps.foldl (Placed.put s) u).methodAt? id = u.methodAt? id := by
  induction ps generalizing u with
  | nil => rfl
  | cons p ps ih =>
    rw [List.foldl_cons, ih _ fun q hq => h q (List.mem_cons_of_mem _ hq), methodAt?_put,
      if_neg (h p List.mem_cons_self)]

/-- a method has the code of its body -/
theorem methodAt?_of_mem (u : CompilationUnit) (ha : ps.Pairwise fun p q => p.body.Apart q.body) {p : Placed}
    (hp : p ∈ ps) {id : MethodId} (hid : p.body.method? = some id) :
    (ps.foldl (Placed.put s) u).methodAt? id = (u.methodAt? id).map fun m => { m with body := some p.code } := by
  induction ps generalizing u with
  | nil => simp at hp
  | cons q ps ih =>
    obtain ⟨hq, ha⟩ := List.pairwise_cons.1 ha
    rw [List.foldl_cons]
    rcases List.mem_cons.1 hp with rfl | hp
    · rw [methodAt?_of_none _ fun r hr => (hq r hr).method_ne hid, methodAt?_put, if_pos hid]
    · rw [ih _ ha hp, methodAt?_put, if_neg ((hq p hp).symm.method_ne hid)]

theorem isSome_methodAt?_foldl (s : Source) (ps : List Placed) (u : CompilationUnit) (id : MethodId) :
    ((ps.foldl (Placed.put s) u).methodAt? id).isSome = (u.methodAt? id).isSome := by
  induction ps generalizing u with
  | nil => rfl
  | cons p ps ih =>
    rw [List.foldl_cons, ih, methodAt?_put]
    split_ifs
    · rw [Option.isSome_map]
    · rfl

theorem size_foldl (u : CompilationUnit) :
    (ps.foldl (Placed.put s) u).variableDecls.size = u.variableDecls.size + (ps.map (·.locals.length)).sum := by
  induction ps generalizing u with
  | nil => rfl
  | cons p ps ih => rw [List.foldl_cons, ih, size_put, List.map_cons, List.sum_cons, Nat.add_assoc]

theorem variableAt?_of_none (u : CompilationUnit) {id : VariableId} (hi : id.index < u.variableDecls.size)
    (h : ∀ p ∈ ps, p.body.field? ≠ some id) :
    (ps.foldl (Placed.put s) u).variableAt? id = u.variableAt? id := by
  induction ps generalizing u with
  | nil => rfl
  | cons p ps ih =>
    have small : id.index < (p.put s u).variableDecls.size := by
      rw [size_put]
      exact Nat.lt_add_right _ hi
    rw [List.foldl_cons, ih _ small fun q hq => h q (List.mem_cons_of_mem _ hq), variableAt?_put,
      if_neg (h p List.mem_cons_self), List.getElem?_append_left (by simpa using hi), Array.getElem?_toList]
    rfl

/-- a field has the code of its body as its initializer -/
theorem variableAt?_of_mem (u : CompilationUnit) (ha : ps.Pairwise fun p q => p.body.Apart q.body) {p : Placed}
    (hp : p ∈ ps) {id : VariableId} (hi : id.index < u.variableDecls.size) (hid : p.body.field? = some id) :
    (ps.foldl (Placed.put s) u).variableAt? id =
      (u.variableAt? id).map fun v => { v with initializer := p.code.head? } := by
  induction ps generalizing u with
  | nil => simp at hp
  | cons q ps ih =>
    obtain ⟨hq, ha⟩ := List.pairwise_cons.1 ha
    have small : id.index < (q.put s u).variableDecls.size := by
      rw [size_put]
      exact Nat.lt_add_right _ hi
    have before : (u.variableDecls.toList ++ q.locals)[id.index]? = u.variableAt? id := by
      rw [List.getElem?_append_left (by simpa using hi), Array.getElem?_toList]
      rfl
    rw [List.foldl_cons]
    rcases List.mem_cons.1 hp with rfl | hp
    · rw [variableAt?_of_none _ small fun r hr => (hq r hr).field_ne hid, variableAt?_put, if_pos hid, before]
    · rw [ih _ ha hp small, variableAt?_put, if_neg ((hq p hp).symm.field_ne hid), before]

/-- a variable that a body declares is found at its place -/
theorem variableAt?_local (u : CompilationUnit) (hf : PlacedFrom u.variableDecls.size ps) {count : Nat}
    (hc : count ≤ u.variableDecls.size) (hfield : ∀ p ∈ ps, ∀ id, p.body.field? = some id → id.index < count) {p : Placed}
    (hp : p ∈ ps) {k : Nat} (hk : k < p.locals.length) :
    (ps.foldl (Placed.put s) u).variableAt? ⟨p.base + k⟩ = p.locals[k]? := by
  induction ps generalizing u with
  | nil => simp at hp
  | cons q ps ih =>
    obtain ⟨hbase, hf⟩ := hf
    have others : ∀ r ∈ ps, ∀ id, r.body.field? = some id → id.index < count :=
      fun r hr => hfield r (List.mem_cons_of_mem _ hr)
    rw [List.foldl_cons]
    rcases List.mem_cons.1 hp with rfl | hp
    · have large {id : VariableId} (h : id.index < count) : id ≠ ⟨p.base + k⟩ := by
        rintro rfl
        rw [hbase] at h
        exact absurd (h.trans_le hc) (Nat.not_lt.2 (Nat.le_add_right _ _))
      rw [variableAt?_of_none, variableAt?_put, if_neg, hbase, ← Array.length_toList, getElem?_append_base]
      · exact fun h => large (hfield p List.mem_cons_self _ h) rfl
      · rw [size_put, hbase]
        exact Nat.add_lt_add_left hk _
      · exact fun r hr h => large (others r hr _ h) rfl
    · refine ih _ (by rwa [size_put]) ?_ others hp
      rw [size_put]
      exact hc.trans (Nat.le_add_right _ _)

theorem blocks_foldl (u : CompilationUnit) :
    (ps.foldl (Placed.put s) u).blocks = u.blocks ++ ps.filterMap (Placed.block? s) := by
  induction ps generalizing u with
  | nil => simp
  | cons p ps ih =>
    obtain ⟨body, code, base, locals⟩ := p
    rw [List.foldl_cons, ih]
    cases body <;> simp [Placed.put, Body.put, List.filterMap_cons, Placed.block?]

/-- what lowered bodies leave as it is -/
theorem headers_foldl (s : Source) (ps : List Placed) (u : CompilationUnit) :
    (ps.foldl (Placed.put s) u).path = u.path ∧ (ps.foldl (Placed.put s) u).package = u.package ∧
      (ps.foldl (Placed.put s) u).imports = u.imports ∧ (ps.foldl (Placed.put s) u).types = u.types ∧
      (ps.foldl (Placed.put s) u).hasParseErrors = u.hasParseErrors := by
  induction ps generalizing u with
  | nil => exact ⟨rfl, rfl, rfl, rfl, rfl⟩
  | cons p ps ih =>
    obtain ⟨body, code, base, locals⟩ := p
    obtain ⟨h1, h2, h3, h4, h5⟩ := ih (Placed.put s u ⟨body, code, base, locals⟩)
    rw [List.foldl_cons, h1, h2, h3, h4, h5]
    cases body <;> exact ⟨rfl, rfl, rfl, rfl, rfl⟩

end CompilationUnit

/-! ## Places of variables -/

theorem PlacedFrom.le {base : Nat} {ps : List Placed} (h : PlacedFrom base ps) {p : Placed} (hp : p ∈ ps) :
    base ≤ p.base := by
  induction ps generalizing base with
  | nil => simp at hp
  | cons q ps ih =>
    rcases List.mem_cons.1 hp with rfl | hp
    · exact h.1.ge
    · exact (Nat.le_add_right _ _).trans (ih h.2 hp)

/-- bodies declare different variables -/
theorem PlacedFrom.pairwise {base : Nat} {ps : List Placed} (h : PlacedFrom base ps) :
    ps.Pairwise fun p q => p.base + p.locals.length ≤ q.base := by
  induction ps generalizing base with
  | nil => exact .nil
  | cons p ps ih => exact .cons (fun q hq => h.1 ▸ h.2.le hq) (ih h.2)

/-- each index after the first variables belongs to one of the bodies -/
theorem PlacedFrom.covers {base : Nat} {ps : List Placed} (h : PlacedFrom base ps) {i : Nat} (hb : base ≤ i)
    (hi : i < base + (ps.map (·.locals.length)).sum) : ∃ p ∈ ps, ∃ k < p.locals.length, i = p.base + k := by
  induction ps generalizing base with
  | nil => simp at hi; omega
  | cons p ps ih =>
    rw [List.map_cons, List.sum_cons, ← Nat.add_assoc] at hi
    by_cases hk : i < base + p.locals.length
    · exact ⟨p, List.mem_cons_self, i - base, by omega, by rw [h.1]; omega⟩
    · obtain ⟨q, hq, k⟩ := ih h.2 (Nat.not_lt.1 hk) hi
      exact ⟨q, List.mem_cons_of_mem _ hq, k⟩

end CallLint
