/-
Names in a unit mean the variables of their scopes. Each body of a file has its code in the unit, and its variables come one
after the other in the unit (`Body.Scoped`). A name in the code is bound to the nearest variable in force where the name
stands in the tree; where none is in force, to the field that the type around the code has, or the nearest type around it
that has one; or to nothing (`Use.Binds`).

`Source.unit_scoping`: so it is for all bodies of a file and for all code of its unit.
-/
import CallLint.Proofs.Owners.Units
import CallLint.Proofs.Scopes.Bodies
import CallLint.Proofs.Scopes.Fields
import CallLint.Proofs.Visits

namespace CallLint

/-! ## What names are bound to -/

/-- what the use of a name is bound to: the nearest of the variables of a body, which come from an index on in the unit, or
a field, or nothing -/
inductive Use.Binds (d : Declarations) (owner : TypeId) (base : Nat) (ds : List Entry) (x : Use) :
    Option VariableId → Prop
  | variable {k : Nat} : Nearest ds x k → Binds d owner base ds x (some ⟨base + k⟩)
  | field {id : VariableId} :
    (∀ e ∈ ds, ¬ e.InForce x) → d.Outward x.name owner id → Binds d owner base ds x (some id)
  | free : (∀ e ∈ ds, ¬ e.InForce x) → (∀ id, ¬ d.Outward x.name owner id) → Binds d owner base ds x none

/-- the code that a unit has of a body, and the type around it -/
inductive CompilationUnit.CodeOf (u : CompilationUnit) (s : Source) : Body → TypeId → List Expr → Prop
  | method {id : MethodId} {n : Node} {m : MethodDecl} {es : List Expr} :
    u.methodAt? id = some m → m.body = some es → CodeOf u s (.method id n) m.owner es
  | field {id : VariableId} {owner : TypeId} {value : Node} {v : VariableDecl} {e : Expr} :
    u.variableAt? id = some v → v.initializer = some e → CodeOf u s (.field id owner value) owner [e]
  | block {owner : TypeId} {n : Node} {es : List Expr} :
    ⟨owner, es, s.spanOf n⟩ ∈ u.blocks → CodeOf u s (.block owner n) owner es

/-- the variables of a body in a unit, and the names in its code -/
structure Body.Scoped (s : Source) (d : Declarations) (u : CompilationUnit) (b : Body) (owner : TypeId) (base : Nat)
    (es : List Expr) : Prop where
  /-- the variables that the body declares are those of the unit from `base` on -/
  locals : ∀ (k : Nat) (e : Entry), (b.entries s)[k]? = some e →
    ∃ v, u.variableAt? ⟨base + k⟩ = some v ∧ v.Is s e.declared
  /-- each is a local variable or a parameter, in the scopes around its node -/
  entries : ∀ e ∈ b.entries s, e.Stands s b.node ∧ e.scopes ≠ []
  /-- what is found outside of the body is a field of the unit -/
  fields : ∀ (name : String) (id : VariableId), d.Outward name owner id → FieldNamed u.variableDecls name id
  /-- the names in the code are those of identifiers in the tree, and bound by their scopes -/
  names : List.Forall₂ (fun x p => x.Stands s b.node ∧ p.1 = x.name ∧ x.Binds d owner base (b.entries s) p.2)
    (b.uses s) (namesIn es)

/-- what the walk finds for a name is what the name is bound to -/
theorem Use.bound_binds {d : Declarations} (hd : d.Sound) {s : Source} {owner : TypeId} (ho : owner.index < d.types.size)
    {base : Nat} {ds : List Entry} {x : Use} {live : List (Nat × Entry)} (h : Lists ds x 0 live) :
    x.Binds d owner base ds (Use.bound base (LowerContext.mk s d owner false).outside (x, live)).2 := by
  rw [Use.bound]
  cases hk : x.find live with
  | some k => exact .variable (h.nearest hk)
  | none =>
    have none := h.none hk
    rw [Option.map_none, Option.none_or]
    cases hf : (LowerContext.mk s d owner false).outside x.name with
    | some id => exact .field none ((hd.outward_iff ho).1 hf)
    | none =>
      refine .free none fun id hid => ?_
      have found := (hd.outward_iff ho).2 hid
      rw [LowerContext.outside] at hf
      simp [hf] at found

namespace CompilationUnit

variable {s : Source} {d : Declarations} {b : Body}

/-- the type around a body is the same in all units with the headers of the file -/
theorem Headed.owner? (hd : d.Sound) (hb : b.InRange d) :
    ∃ owner : TypeId, owner.index < d.types.size ∧ ∀ u : CompilationUnit, u.Headed d → b.owner? u = some owner := by
  cases b with
  | method id n =>
    obtain ⟨m, hm⟩ : ∃ m, d.methods[id.index]? = some m := ⟨_, Array.getElem?_eq_getElem hb⟩
    refine ⟨m.owner, (hd.methods m (Array.mem_of_getElem? hm)).1, fun u hu => ?_⟩
    obtain ⟨w, hw, howner⟩ := hu.methods hm
    rw [Body.owner?, hw, Option.map_some, howner]
  | field id owner value => exact ⟨owner, hb.2, fun _ _ => rfl⟩
  | block owner n => exact ⟨owner, hb, fun _ _ => rfl⟩

end CompilationUnit

/-! ## Bodies in a unit -/

/-- a lowered body has the variables and names of its events -/
theorem Placed.Ran.binds {s : Source} {d : Declarations} {p : Placed} (h : p.Ran s d) (hd : d.Sound) (hf : p.body.Fits)
    (hr : p.body.InRange d) : ∃ owner : TypeId, (∀ u : CompilationUnit, u.Headed d → p.body.owner? u = some owner) ∧
      List.Forall₂ (fun w e => w.Is s e.declared) p.locals (p.body.entries s) ∧
      List.Forall₂ (fun x q => x.Stands s p.body.node ∧ q.1 = x.name ∧ x.Binds d owner p.base (p.body.entries s) q.2)
        (p.body.uses s) (namesIn p.code) := by
  obtain ⟨v, st, hv, hsize, hrun, hlocals⟩ := h
  obtain ⟨owner, ho, howner⟩ := CompilationUnit.Headed.owner? hd hr
  have follows := Body.lower_follows (s := s) (d := d) hf (howner v hv)
  rw [hrun, hsize] at follows
  obtain ⟨⟨ws, hws, hall⟩, hnames⟩ := follows
  obtain rfl : ws = p.locals := List.append_cancel_left (hws.symm.trans hlocals)
  refine ⟨owner, howner, hall, ?_⟩
  have uses : p.body.uses s = (Event.seenIn [] (p.body.events s) Env.empty).map (·.1) := (Event.seenIn_uses _ _ _).symm
  rw [hnames, uses, List.forall₂_map_left_iff, List.forall₂_map_right_iff]
  refine List.forall₂_same.2 fun q hq => ⟨hf.uses q.1 ?_, rfl, Use.bound_binds hd ho (hf.lists hq)⟩
  rw [uses]
  exact List.mem_map_of_mem hq

/-- the initializer of a field is one expression -/
theorem Placed.Ran.field_code {s : Source} {d : Declarations} {id : VariableId} {owner : TypeId} {value : Node}
    {code : List Expr} {base : Nat} {locals : List VariableDecl}
    (h : Placed.Ran s d ⟨.field id owner value, code, base, locals⟩) : ∃ e, code = [e] := by
  obtain ⟨v, st, -, -, hrun, -⟩ := h
  rw [Body.lower, Body.code] at hrun
  cases he : (Inner.ofLevels nestingLimit : Inner).expression ⟨s, d, owner, false⟩ value ⟨v.variableDecls, []⟩ with
  | error f => simp [he, bind, StateT.bind, Except.bind] at hrun
  | ok r =>
    simp only [bind, StateT.bind, he] at hrun
    cases hrun
    exact ⟨r.1, rfl⟩

/-- lowered bodies, each of a declaration that is there -/
structure Placed.All (s : Source) (d : Declarations) (ps : List Placed) : Prop where
  apart : ps.Pairwise fun p q => p.body.Apart q.body
  places : PlacedFrom d.fields.size ps
  ran : ∀ p ∈ ps, p.Ran s d
  fits : ∀ p ∈ ps, p.body.Fits
  inRange : ∀ p ∈ ps, p.body.InRange d

theorem Placed.All.locals_length {s : Source} {d : Declarations} {ps : List Placed} (h : Placed.All s d ps) (hd : d.Sound)
    {p : Placed} (hp : p ∈ ps) : p.locals.length = (p.body.entries s).length := by
  obtain ⟨owner, -, hlocals, -⟩ := (h.ran p hp).binds hd (h.fits p hp) (h.inRange p hp)
  exact hlocals.length_eq

namespace CompilationUnit

variable {s : Source} {d : Declarations} {ps : List Placed} {p : Placed} (path : String) (package : Option String)
  (imports : List Import)

/-- the unit of a file whose bodies are lowered -/
def filled (s : Source) (d : Declarations) (path : String) (package : Option String) (imports : List Import)
    (ps : List Placed) : CompilationUnit :=
  ps.foldl (Placed.put s) (d.headers path package imports)

theorem filled_method (h : Placed.All s d ps) (hp : p ∈ ps) {id : MethodId} (hid : p.body.method? = some id) :
    (filled s d path package imports ps).methodAt? id = d.methods[id.index]?.map fun m => { m with body := some p.code } :=
  methodAt?_of_mem _ h.apart hp hid

theorem filled_field (h : Placed.All s d ps) (hp : p ∈ ps) {id : VariableId} (hid : p.body.field? = some id)
    (hi : id.index < d.fields.size) :
    (filled s d path package imports ps).variableAt? id =
      d.fields[id.index]?.map fun v => { v with initializer := p.code.head? } :=
  variableAt?_of_mem _ h.apart hp hi hid

theorem filled_local (h : Placed.All s d ps) (hp : p ∈ ps) {k : Nat} (hk : k < p.locals.length) :
    (filled s d path package imports ps).variableAt? ⟨p.base + k⟩ = p.locals[k]? := by
  refine variableAt?_local _ h.places le_rfl (fun q hq id hid => ?_) hp hk
  have inRange := h.inRange q hq
  obtain ⟨body, code, base, locals⟩ := q
  cases body with
  | field id' owner value =>
    obtain rfl : id' = id := Option.some.inj hid
    exact inRange.1
  | _ => cases hid

/-- the fields of the file are in the unit -/
theorem filled_fieldNamed (h : Placed.All s d ps) {name : String} {id : VariableId} (hid : FieldNamed d.fields name id) :
    FieldNamed (filled s d path package imports ps).variableDecls name id := by
  obtain ⟨v, hv, hkind, hname⟩ := hid
  have hi : id.index < d.fields.size := (Array.getElem?_eq_some_iff.1 hv).1
  by_cases hp : ∃ p ∈ ps, p.body.field? = some id
  · obtain ⟨p, hp, hpid⟩ := hp
    have found := filled_field path package imports h hp hpid hi
    rw [hv] at found
    exact ⟨_, found, hkind, hname⟩
  · have found := variableAt?_of_none (s := s) (d.headers path package imports) hi
      fun p hp' hpid => hp ⟨p, hp', hpid⟩
    exact ⟨v, found.trans hv, hkind, hname⟩

/-- the unit has the code of a lowered body -/
theorem filled_codeOf (h : Placed.All s d ps) (hp : p ∈ ps) {owner : TypeId}
    (ho : ∀ u : CompilationUnit, u.Headed d → p.body.owner? u = some owner) :
    (filled s d path package imports ps).CodeOf s p.body owner p.code := by
  have hran := h.ran p hp
  have inRange := h.inRange p hp
  have owned := ho _ (d.headers_headed path package imports)
  obtain ⟨body, code, base, locals⟩ := p
  cases body with
  | method id n =>
    obtain ⟨m, hm, rfl⟩ := Option.map_eq_some_iff.1 owned
    have found := filled_method path package imports h hp rfl
    rw [show d.methods[id.index]? = some m from hm] at found
    exact .method (m := { m with body := some code }) found rfl
  | field id owner' value =>
    obtain rfl : owner' = owner := Option.some.inj owned
    obtain ⟨e, rfl⟩ := hran.field_code
    have found := filled_field path package imports h hp rfl inRange.1
    rw [Array.getElem?_eq_getElem inRange.1] at found
    exact .field found rfl
  | block owner' n =>
    obtain rfl : owner' = owner := Option.some.inj owned
    refine .block ?_
    rw [filled, blocks_foldl]
    exact List.mem_append_right _ (List.mem_filterMap.2 ⟨_, hp, rfl⟩)

/-- **A lowered body is scoped in its unit.** -/
theorem filled_scoped (hd : d.Sound) (h : Placed.All s d ps) (hp : p ∈ ps) :
    ∃ owner, (filled s d path package imports ps).CodeOf s p.body owner p.code ∧
      p.body.Scoped s d (filled s d path package imports ps) owner p.base p.code := by
  obtain ⟨owner, howner, hlocals, hnames⟩ := (h.ran p hp).binds hd (h.fits p hp) (h.inRange p hp)
  refine ⟨owner, filled_codeOf path package imports h hp howner, ?_⟩
  constructor
  case locals =>
    intro k e he
    have hk : k < p.locals.length := by
      rw [hlocals.length_eq]
      exact (List.getElem?_eq_some_iff.1 he).1
    refine ⟨p.locals[k], (filled_local path package imports h hp hk).trans (List.getElem?_eq_getElem hk), ?_⟩
    obtain ⟨hk', rfl⟩ := List.getElem?_eq_some_iff.1 he
    exact hlocals.get hk hk'
  case entries => exact (h.fits p hp).entries
  case fields => exact fun name id hid => filled_fieldNamed path package imports h (hd.outward_named hid)
  case names => exact hnames

/-- the variables after the fields of the file are those of lowered bodies -/
theorem filled_covers (h : Placed.All s d ps) {i : Nat} {v : VariableDecl} (hi : d.fields.size ≤ i)
    (hv : (filled s d path package imports ps).variableDecls[i]? = some v) :
    ∃ p ∈ ps, ∃ k < p.locals.length, i = p.base + k := by
  have hsize := (Array.getElem?_eq_some_iff.1 hv).1
  rw [filled, size_foldl] at hsize
  exact h.places.covers hi hsize

theorem filled_variable (h : Placed.All s d ps) (hf : ∀ v ∈ d.fields, v.kind = .field) {i : Nat} {v : VariableDecl}
    (hv : (filled s d path package imports ps).variableDecls[i]? = some v) (hk : v.kind ≠ .field) :
    ∃ p ∈ ps, ∃ k < p.locals.length, i = p.base + k := by
  by_cases hi : i < d.fields.size
  · have field : FieldNamed d.fields d.fields[i].name ⟨i⟩ :=
      ⟨_, Array.getElem?_eq_getElem hi, hf _ (Array.getElem_mem hi), rfl⟩
    obtain ⟨w, hw, hkind, -⟩ := filled_fieldNamed path package imports h field
    obtain rfl := Option.some.inj (hw.symm.trans hv)
    exact absurd hkind hk
  · exact filled_covers path package imports h (Nat.not_lt.1 hi) hv

/-- all code of the unit is that of lowered bodies -/
theorem filled_root (hd : d.Sound) (h : Placed.All s d ps) {place : RootPlace} {es : List Expr}
    (hroot : (filled s d path package imports ps).RootAt place es) : ∃ p ∈ ps, p.code = es := by
  cases hroot with
  | @method i m es hm hbody =>
    by_cases hp : ∃ p ∈ ps, p.body.method? = some ⟨i⟩
    · obtain ⟨p, hp, hid⟩ := hp
      have found := filled_method path package imports h hp hid
      obtain ⟨w, -, rfl⟩ := Option.map_eq_some_iff.1 (found.symm.trans hm)
      exact ⟨p, hp, Option.some.inj hbody⟩
    · -- a method without a lowered body has no code
      have none : ∀ p ∈ ps, p.body.method? ≠ some ⟨i⟩ := fun p hp' hid => hp ⟨p, hp', hid⟩
      have header : d.methods[i]? = some m :=
        (methodAt?_of_none (s := s) (d.headers path package imports) none).symm.trans hm
      rw [(hd.methods m (Array.mem_of_getElem? header)).2] at hbody
      cases hbody
  | @field i v init hv hkind hinit =>
    by_cases hi : i < d.fields.size
    · by_cases hp : ∃ p ∈ ps, p.body.field? = some ⟨i⟩
      · obtain ⟨p, hp, hid⟩ := hp
        have found := filled_field path package imports h hp hid hi
        obtain ⟨w, -, rfl⟩ := Option.map_eq_some_iff.1 (found.symm.trans hv)
        refine ⟨p, hp, ?_⟩
        have hran := h.ran p hp
        obtain ⟨body, code, base, locals⟩ := p
        cases body with
        | field id owner value =>
          obtain ⟨e, rfl⟩ := hran.field_code
          exact congrArg (fun e => [e]) (Option.some.inj hinit)
        | _ => cases hid
      · -- neither has a field
        have none : ∀ p ∈ ps, p.body.field? ≠ some ⟨i⟩ := fun p hp' hid => hp ⟨p, hp', hid⟩
        have header : d.fields[i]? = some v :=
          (variableAt?_of_none (s := s) (d.headers path package imports) hi none).symm.trans hv
        rw [hd.withoutInitializer v (Array.mem_of_getElem? header)] at hinit
        cases hinit
    · obtain ⟨p, hp, k, hk, rfl⟩ := filled_covers path package imports h (Nat.not_lt.1 hi) hv
      have found := (filled_local path package imports h hp hk).symm.trans hv
      obtain ⟨owner, -, hlocals, -⟩ := (h.ran p hp).binds hd (h.fits p hp) (h.inRange p hp)
      obtain ⟨e, he, his⟩ := forall₂_mem_left hlocals (List.mem_of_getElem? found)
      exact absurd (his.kind.symm.trans hkind) ((h.fits p hp).entries e he).1.written.kind
  | @block i b hb =>
    rw [filled, blocks_foldl] at hb
    obtain hb | hb := List.mem_append.1 (List.mem_of_getElem? hb)
    · cases hb
    · obtain ⟨p, hp, hblock⟩ := List.mem_filterMap.1 hb
      refine ⟨p, hp, ?_⟩
      obtain ⟨body, code, base, locals⟩ := p
      cases body with
      | block owner n =>
        cases hblock
        rfl
      | _ => cases hblock

/-- a file is a unit with its lowered bodies, or a body has a fault -/
theorem lowerBodies_filled (hd : d.Sound) (hf : d.Fit) (ha : d.bodies.toList.Pairwise Body.Apart) :
    Safe True (fun u => ∃ ps, Placed.All s d ps ∧ ps.map (·.body) = d.bodies.toList ∧ u = filled s d path package imports ps)
      (d.bodies.foldlM (lowerBody s d) (d.headers path package imports)) := by
  have inRange : ∀ b ∈ d.bodies.toList, b.InRange d := fun b hb => hd.bodies b (Array.mem_toList_iff.1 hb)
  have fits : ∀ b ∈ d.bodies.toList, b.Fits := fun b hb => hf b (Array.mem_toList_iff.1 hb)
  have grow : ∀ b ∈ d.bodies.toList, ∀ v : CompilationUnit, v.Headed d → ∀ code st, b.lower s d v = .ok (code, st) →
      ∃ ls, st.variableDecls.toList = v.variableDecls.toList ++ ls := by
    intro b hb v hv code st hrun
    obtain ⟨owner, -, howner⟩ := Headed.owner? hd (inRange b hb)
    have follows := Body.lower_follows (s := s) (d := d) (fits b hb) (howner v hv)
    rw [hrun] at follows
    obtain ⟨⟨ws, hws, -⟩, -⟩ := follows
    exact ⟨ws, hws⟩
  rw [← Array.foldlM_toList]
  refine (lowerBodies_placed grow (d.headers_headed path package imports)).mono (fun _ => trivial) ?_
  rintro u ⟨ps, hps, hfrom, hran, hu⟩
  have mem : ∀ p ∈ ps, p.body ∈ d.bodies.toList := fun p hp => hps ▸ List.mem_map_of_mem hp
  refine ⟨ps, ?_, hps, hu⟩
  exact ⟨List.pairwise_map.1 (hps ▸ ha), hfrom, hran, fun p hp => fits _ (mem p hp), fun p hp => inRange _ (mem p hp)⟩

end CompilationUnit

theorem Source.declarationsOf_fields {s : Source} {root : Node} (h : s.tree? = some root) :
    ∀ v ∈ (s.declarationsOf root).fields, v.kind = .field := by
  obtain ⟨bs, hc, -, -⟩ := Declarations.ofFile_gathers (s := s) (Source.tree_shaped h) (Source.tree_inOrder h)
    (NameTable.ofImports (s.package? root) (s.imports root))
  obtain ⟨vs, hvs, hkind⟩ := hc.fields
  intro v hv
  have listed : v ∈ (s.declarationsOf root).fields.toList := Array.mem_toList_iff.2 hv
  rw [show (s.declarationsOf root).fields.toList = vs from hvs] at listed
  exact (hkind v listed).1

/-- the code of a body is in the unit, bound by scopes -/
def CompilationUnit.Binds (u : CompilationUnit) (s : Source) (root : Node) (b : Body) (base : Nat) (es : List Expr) :
    Prop :=
  b ∈ (s.declarationsOf root).bodies ∧
    ∃ owner, u.CodeOf s b owner es ∧ b.Scoped s (s.declarationsOf root) u owner base es

/-- the unit of a file has the bodies of the tree, and no other code or variables -/
structure CompilationUnit.ScopedIn (s : Source) (root : Node) (u : CompilationUnit) : Prop where
  bodies : ∀ b ∈ (s.declarationsOf root).bodies, b.node ∈ root.within ∧ ∃ base es, u.Binds s root b base es
  code : ∀ place es, u.RootAt place es → ∃ b base, u.Binds s root b base es
  locals : ∀ (i : Nat) (v : VariableDecl), u.variableDecls[i]? = some v → v.kind ≠ .field →
    ∃ b base es, u.Binds s root b base es ∧ ∃ k < (b.entries s).length, i = base + k

theorem CompilationUnit.ofTree_scoped {s : Source} {root : Node} (hroot : s.tree? = some root) (path : String) :
    Safe True (fun u => u.Tells (s.declarationsOf root) ∧ u.ScopedIn s root) (ofTree path s root) := by
  have hd := s.declarationsOf_sound root
  have apart : (s.declarationsOf root).bodies.toList.Pairwise Body.Apart :=
    Declarations.ofFile_apart (Source.tree_shaped hroot) (Source.tree_inOrder hroot) _
  have filled := lowerBodies_filled (s := s) path (s.package? root) (s.imports root) hd (Source.declarationsOf_fit hroot)
    apart
  refine ((ofTree_tells s path root).and filled).mono id fun u ⟨tells, ps, h, hps, hu⟩ => ⟨tells, ?_⟩
  subst hu
  have binds {p : Placed} (hp : p ∈ ps) : (CompilationUnit.filled s (s.declarationsOf root) path (s.package? root)
      (s.imports root) ps).Binds s root p.body p.base p.code :=
    ⟨Array.mem_toList_iff.1 (hps ▸ List.mem_map_of_mem hp), filled_scoped path _ _ hd h hp⟩
  constructor
  case bodies =>
    intro b hb
    have listed := Array.mem_toList_iff.2 hb
    rw [← hps] at listed
    obtain ⟨p, hp, rfl⟩ := List.mem_map.1 listed
    exact ⟨(s.declarationsOf_stated root).bodies _ hb, p.base, p.code, binds hp⟩
  case code =>
    intro place es hes
    obtain ⟨p, hp, rfl⟩ := filled_root path _ _ hd h hes
    exact ⟨p.body, p.base, binds hp⟩
  case locals =>
    intro i v hv hkind
    obtain ⟨p, hp, k, hk, rfl⟩ := filled_variable path _ _ h (s.declarationsOf_fields hroot) hv hkind
    exact ⟨p.body, p.base, p.code, binds hp, k, (h.locals_length hd hp) ▸ hk, rfl⟩

/-- **Lexical scoping.** In the unit of a file without syntax errors each name is bound by the scopes around it: to the
nearest local variable or parameter of its body, and where none is in force to the field found outward from the type
around it, or to nothing. -/
theorem Source.unit_scoping [Recovery] (s : Source) (path : String) :
    Safe (s.root.Faulty s)
      (fun u => ∀ root, s.tree? = some root → u.Tells (s.declarationsOf root) ∧ u.ScopedIn s root) (s.unit path) := by
  have tree := s.unit_of_tree (P := fun u => ∀ root, s.tree? = some root → u.Tells (s.declarationsOf root) ∧
    u.ScopedIn s root) path fun root hroot => (CompilationUnit.ofTree_scoped hroot path).mono id fun u hu root' hroot' => by
      obtain rfl := Option.some.inj (hroot.symm.trans hroot')
      exact hu
  refine (tree.and (s.unit_hasParseErrors path)).mono id fun u ⟨bound, flag⟩ root hroot => ?_
  rw [hroot] at flag
  exact bound flag root hroot

end CallLint
