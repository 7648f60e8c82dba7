/-
Files whose declarations match have matching units. Corresponding bodies are lowered to matching code, whatever was
lowered before them (`Body.Alike.lower`), so either one of them has a fault and neither file has a unit, or the units
match: fields as they did before, and local variables by their place in corresponding bodies (`Correspondence.placed`).
-/
import CallLint.Proofs.Correspondence.Lowering
import CallLint.Proofs.Correspondence.Placed

namespace CallLint

/-- bodies of corresponding declarations with alike code -/
inductive Body.Alike (R : Correspondence) (s s' : Source) : Body → Body → Prop where
  | method {id id' : MethodId} {n n' : Node} : R.methods id id' → n.Alike R.spans s s' n' →
    Alike R s s' (.method id n) (.method id' n')
  | field {id id' : VariableId} {owner owner' : TypeId} {value value' : Node} : R.vars id id' → R.types owner owner' →
    value.Alike R.spans s s' value' → Alike R s s' (.field id owner value) (.field id' owner' value')
  | block {owner owner' : TypeId} {n n' : Node} : R.types owner owner' → n.Alike R.spans s s' n' →
    Alike R s s' (.block owner n) (.block owner' n')

theorem Body.Alike.method? {R : Correspondence} {s s' : Source} {b b' : Body} (h : Body.Alike R s s' b b') :
    Option.Rel R.methods b.method? b'.method? := by
  cases h with
  | method hid _ => exact .some hid
  | _ => exact .none

theorem Body.Alike.field? {R : Correspondence} {s s' : Source} {b b' : Body} (h : Body.Alike R s s' b b') :
    Option.Rel R.vars b.field? b'.field? := by
  cases h with
  | field hid _ => exact .some hid
  | _ => exact .none

/-- the declarations of two files correspond one to one, in any order -/
structure Declarations.Matches (R : Correspondence) (s s' : Source) (d d' : Declarations) : Prop
    extends Declarations.Agree R d d' where
  methods : OneToOne R.methods (MethodDecl.Matches R) (fun id => d.methods[id.index]?) fun id => d'.methods[id.index]?
  fields : OneToOne R.vars (VariableDecl.Matches R) (fun id => d.fields[id.index]?) fun id => d'.fields[id.index]?
  bodies : PermRel (Body.Alike R s s') d.bodies.toList d'.bodies.toList

section Lower

variable {R : Correspondence} {s s' : Source} {d d' : Declarations} {u u' : CompilationUnit} {b b' : Body}

/-- fields have their types in all units in which bodies are lowered -/
theorem Declarations.Matches.typed (hd : d.Matches R s s' d') (hu : u.Headed d) (hu' : u'.Headed d') :
    R.Typed u.variableDecls u'.variableDecls := by
  intro a a' ha
  obtain ⟨v, v', hv, hv', hvv⟩ := hd.fields.related ha
  obtain ⟨w, hw, htype⟩ := hu.fields hv
  obtain ⟨w', hw', htype'⟩ := hu'.fields hv'
  exact ⟨w, w', hw, hw', by rw [htype, htype', hvv.declaredType]⟩

theorem Declarations.Matches.field_lt (hd : d.Matches R s s' d') {a a' : VariableId} (h : R.vars a a') :
    a.index < d.fields.size ∧ a'.index < d'.fields.size := by
  obtain ⟨_, _, hv, hv', -⟩ := hd.fields.related h
  exact ⟨(Array.getElem?_eq_some_iff.1 hv).1, (Array.getElem?_eq_some_iff.1 hv').1⟩

/-- the code of a body, and the variables declared in it, are abreast of those of another body -/
def LoweredAbreast (R : Correspondence) (vars vars' : Array VariableDecl) (r r' : List Expr × LowerState) : Prop :=
  ∃ m, LowerState.Abreast R vars vars' m r.2 r'.2 ∧ CodeAt R vars vars' m r.1 r'.1

theorem Lower.Paired.lowered {vars vars' : Array VariableDecl} {x x' : Lower (List Expr)}
    (h : Lower.Paired R vars vars' 0 x x' (CodeAt R vars vars')) :
    BothFaultOr (LoweredAbreast R vars vars') (x ⟨vars, []⟩) (x' ⟨vars', []⟩) :=
  (h _ _ (.start R vars vars')).mono fun _ _ ⟨m, _, hs, hr⟩ => ⟨m, hs, hr⟩

theorem Body.parts_alike {n n' : Node} (h : n.Alike R.spans s s' n') :
    List.Forall₂ (Node.Alike R.spans s s') (Body.parts n) (Body.parts n') := by
  rw [Body.parts, Body.parts, h.kind]
  split_ifs
  · exact List.rel_filterMap (fun _ _ ho => ho) (.cons (h.child? .arguments) (.cons (h.child? .body) .nil))
  · exact .cons h .nil

theorem Body.routine_paired {vars vars' : Array VariableDecl} {inner : Inner} (h : inner.Pairs R vars vars') {c c' : LowerContext}
    (hc : c.Alike R c') {n n' : Node} (hn : n.Alike R.spans c.source c'.source n') :
    Lower.Paired R vars vars' 0 (Body.routine inner c n) (Body.routine inner c' n') (CodeAt R vars vars') := by
  rw [Body.routine, Body.routine]
  refine Lower.Paired.inScope ?_
  rcases optionRel_cases (hn.child? .parameters) with ⟨hp, hp'⟩ | ⟨p, p', hp, hp', hpp⟩ <;>
    rcases optionRel_cases (hn.child? .body) with ⟨hb, hb'⟩ | ⟨b, b', hb, hb', hbb⟩ <;>
    simp only [hp, hp', hb, hb']
  · exact .pure .nil
  · exact h.children 0 hc hbb
  · exact (Lower.Paired.declareParameters hc hpp).bind fun _ _ _ _ _ => .pure .nil
  · exact (Lower.Paired.declareParameters hc hpp).bind fun m _ _ _ _ => h.children m hc hbb

/-- **Corresponding bodies are lowered to matching code.** -/
theorem Body.Alike.lower (hb : Body.Alike R s s' b b') (hd : d.Matches R s s' d') (hu : u.Headed d) (hu' : u'.Headed d') :
    BothFaultOr (LoweredAbreast R u.variableDecls u'.variableDecls) (b.lower s d u) (b'.lower s' d' u') := by
  have typed : R.Typed u.variableDecls u'.variableDecls := hd.typed hu hu'
  have pairs := Inner.ofLevels_pairs typed nestingLimit
  cases hb with
  | method hid hn =>
    obtain ⟨m, m', hm, hm', hmm⟩ := hd.methods.related hid
    obtain ⟨w, hw, howner⟩ := hu.methods hm
    obtain ⟨w', hw', howner'⟩ := hu'.methods hm'
    rw [Body.lower, Body.lower, Body.code, Body.code, hw, hw']
    have places : LowerContext.Alike R ⟨s, d, w.owner, false⟩ ⟨s', d', w'.owner, false⟩ :=
      ⟨hd.toAgree, by rw [howner, howner']; exact hmm.owner, rfl⟩
    exact (Body.routine_paired pairs places hn).lowered
  | @field id id' owner owner' value value' hid howner hn =>
    have places : LowerContext.Alike R ⟨s, d, owner, false⟩ ⟨s', d', owner', false⟩ := ⟨hd.toAgree, howner, rfl⟩
    have code := pairs.expression 0 places hn _ _ (.start R u.variableDecls u'.variableDecls)
    refine code.bind fun r r' h => ?_
    obtain ⟨m, -, hs, hr⟩ := h
    exact ⟨m, hs, .cons hr .nil⟩
  | @block owner owner' n n' howner hn =>
    have places : LowerContext.Alike R ⟨s, d, owner, false⟩ ⟨s', d', owner', false⟩ := ⟨hd.toAgree, howner, rfl⟩
    have code := (Lower.Paired.inScope (.mapM CodeAt.mono (Body.parts_alike hn) fun m _ _ _ hp =>
      pairs.children m places hp)) _ _ (.start R u.variableDecls u'.variableDecls)
    refine code.bind fun r r' h => ?_
    obtain ⟨m, -, hs, hr⟩ := h
    exact ⟨m, hs, CodeAt.flatten hr⟩

end Lower

/-! ## Lowered bodies -/

/-- lowered bodies of corresponding declarations with matching code and variables -/
structure Placed.Matches (R : Correspondence) (s s' : Source) (p p' : Placed) : Prop where
  body : Body.Alike R s s' p.body p'.body
  locals : List.Forall₂ (VariableDecl.Matches (R.locals p.base p'.base p.locals.length)) p.locals p'.locals
  code : List.Forall₂ (Expr.Matches (R.locals p.base p'.base p.locals.length)) p.code p'.code

theorem Placed.Ran.matches {R : Correspondence} {s s' : Source} {d d' : Declarations} {p p' : Placed} (hp : p.Ran s d)
    (hp' : p'.Ran s' d') (hd : d.Matches R s s' d') (hb : Body.Alike R s s' p.body p'.body) : p.Matches R s s' p' := by
  obtain ⟨v, st, hv, hbase, hrun, hls⟩ := hp
  obtain ⟨v', st', hv', hbase', hrun', hls'⟩ := hp'
  have paired := hb.lower hd hv hv'
  rw [hrun, hrun'] at paired
  obtain ⟨m, ⟨⟨ls, ls', hvars, hvars', rfl, hmatch⟩, -⟩, hcode⟩ := paired
  obtain rfl : p.locals = ls := by rw [hls] at hvars; exact List.append_cancel_left hvars
  obtain rfl : p'.locals = ls' := by rw [hls'] at hvars'; exact List.append_cancel_left hvars'
  rw [hbase, hbase'] at hmatch
  rw [CodeAt, ExprAt, hbase, hbase'] at hcode
  exact ⟨hb, hmatch, hcode⟩

/-- as `R`, and the variables of each pair of bodies correspond in their order -/
def Correspondence.placed (R : Correspondence) (pairs : List (Placed × Placed)) : Correspondence :=
  { R with vars := fun a a' => R.vars a a' ∨
      ∃ p ∈ pairs, ∃ k < p.1.locals.length, a = ⟨p.1.base + k⟩ ∧ a' = ⟨p.2.base + k⟩ }

theorem Correspondence.grows_placed (R : Correspondence) (pairs : List (Placed × Placed)) :
    R.Grows (R.placed pairs) :=
  ⟨rfl, rfl, fun _ _ h => Or.inl h, rfl⟩

theorem Correspondence.locals_grows_placed (R : Correspondence) {pairs : List (Placed × Placed)} {p : Placed × Placed}
    (hp : p ∈ pairs) : (R.locals p.1.base p.2.base p.1.locals.length).Grows (R.placed pairs) :=
  ⟨rfl, rfl, fun _ _ h => h.imp_right fun hk => ⟨p, hp, hk⟩, rfl⟩

/-- corresponding methods get corresponding code -/
theorem MethodDecl.Matches.withBody {R R' : Correspondence} (hg : R.Grows R') {m m' : MethodDecl} (h : m.Matches R m')
    {code code' : Option (List Expr)} (hcode : Option.Rel (List.Forall₂ (Expr.Matches R')) code code') :
    MethodDecl.Matches R' { m with body := code } { m' with body := code' } :=
  ⟨h.name, hg.types ▸ h.owner, h.parameterCount, h.varargs, h.isPublic, h.isAbstract, h.annotations, hcode,
    hg.spans ▸ h.nameSpan, hg.spans ▸ h.span⟩

theorem MethodDecl.Matches.grow {R R' : Correspondence} (hg : R.Grows R') {m m' : MethodDecl} (h : m.Matches R m') :
    m.Matches R' m' :=
  h.withBody hg (optionRel_mono (fun _ _ => listMatches_mono hg _) h.body)

theorem VariableDecl.Matches.withInitializer {R R' : Correspondence} (hg : R.Grows R') {v v' : VariableDecl}
    (h : v.Matches R v') {init init' : Option Expr} (hinit : Option.Rel (Expr.Matches R') init init') :
    VariableDecl.Matches R' { v with initializer := init } { v' with initializer := init' } :=
  ⟨h.name, h.kind, h.declaredType, h.isFinal, hinit, hg.spans ▸ h.span⟩

/-- the variables of the bodies have different indices -/
def Placed.Disjoint (p q : Placed) : Prop :=
  p.base + p.locals.length ≤ q.base ∨ q.base + q.locals.length ≤ p.base

theorem Placed.Disjoint.symm {p q : Placed} (h : p.Disjoint q) : q.Disjoint p :=
  Or.symm h

theorem Placed.Disjoint.ne {p q : Placed} (h : p.Disjoint q) {i j : Nat} (hi : i < p.locals.length)
    (hj : j < q.locals.length) : p.base + i ≠ q.base + j := by
  rcases h with h | h <;> omega

/-- lowered bodies of two files, paired up -/
structure PlacedPairs (R : Correspondence) (s s' : Source) (ps qs : List Placed) (pairs : List (Placed × Placed)) :
    Prop where
  left : (pairs.map (·.1)).Perm ps
  right : pairs.map (·.2) = qs
  matched : ∀ p ∈ pairs, p.1.Matches R s s' p.2

namespace PlacedPairs

variable {R : Correspondence} {s s' : Source} {d d' : Declarations} {ps qs : List Placed}
  {pairs : List (Placed × Placed)} {base : Nat}

theorem mem_left (h : PlacedPairs R s s' ps qs pairs) {p : Placed} : p ∈ ps ↔ ∃ x ∈ pairs, x.1 = p := by
  rw [← h.left.mem_iff, List.mem_map]

theorem mem_right (h : PlacedPairs R s s' ps qs pairs) {q : Placed} : q ∈ qs ↔ ∃ x ∈ pairs, x.2 = q := by
  rw [← h.right, List.mem_map]

theorem disjoint_left (h : PlacedPairs R s s' ps qs pairs) (hp : PlacedFrom base ps) {x y : Placed × Placed}
    (hx : x ∈ pairs) (hy : y ∈ pairs) (hne : x ≠ y) : x.1.Disjoint y.1 := by
  have : Std.Symm fun x y : Placed × Placed => x.1.Disjoint y.1 := ⟨fun _ _ => Placed.Disjoint.symm⟩
  have all : ps.Pairwise Placed.Disjoint := hp.pairwise.imp Or.inl
  have pairwise := List.pairwise_map.1 ((h.left.pairwise_iff Placed.Disjoint.symm).2 all)
  exact pairwise.forall hx hy hne

theorem disjoint_right (h : PlacedPairs R s s' ps qs pairs) (hq : PlacedFrom base qs) {x y : Placed × Placed}
    (hx : x ∈ pairs) (hy : y ∈ pairs) (hne : x ≠ y) : x.2.Disjoint y.2 := by
  have : Std.Symm fun x y : Placed × Placed => x.2.Disjoint y.2 := ⟨fun _ _ => Placed.Disjoint.symm⟩
  have all : qs.Pairwise Placed.Disjoint := hq.pairwise.imp Or.inl
  have pairwise := List.pairwise_map.1 (h.right ▸ all)
  exact pairwise.forall hx hy hne

/-- a local variable of the first file stands in one body, at one place -/
theorem place_left (h : PlacedPairs R s s' ps qs pairs) (hp : PlacedFrom base ps) {x y : Placed × Placed} (hx : x ∈ pairs)
    (hy : y ∈ pairs) {i j : Nat} (hi : i < x.1.locals.length) (hj : j < y.1.locals.length)
    (same : x.1.base + i = y.1.base + j) : x = y ∧ i = j := by
  by_cases hxy : x = y
  · subst hxy
    exact ⟨rfl, Nat.add_left_cancel same⟩
  · exact absurd same ((h.disjoint_left hp hx hy hxy).ne hi hj)

theorem place_right (h : PlacedPairs R s s' ps qs pairs) (hq : PlacedFrom base qs) {x y : Placed × Placed} (hx : x ∈ pairs)
    (hy : y ∈ pairs) {i j : Nat} (hi : i < x.2.locals.length) (hj : j < y.2.locals.length)
    (same : x.2.base + i = y.2.base + j) : x = y ∧ i = j := by
  by_cases hxy : x = y
  · subst hxy
    exact ⟨rfl, Nat.add_left_cancel same⟩
  · exact absurd same ((h.disjoint_right hq hx hy hxy).ne hi hj)

/-- no variable corresponds to two others -/
theorem biUnique (h : PlacedPairs R s s' ps qs pairs) (hd : d.Matches R s s' d') (hp : PlacedFrom d.fields.size ps)
    (hq : PlacedFrom d'.fields.size qs) : Relator.BiUnique (R.placed pairs).vars := by
  have after {x : Placed × Placed} (hx : x ∈ pairs) : d.fields.size ≤ x.1.base ∧ d'.fields.size ≤ x.2.base :=
    ⟨hp.le (h.mem_left.2 ⟨x, hx, rfl⟩), hq.le (h.mem_right.2 ⟨x, hx, rfl⟩)⟩
  have length {x : Placed × Placed} (hx : x ∈ pairs) : x.1.locals.length = x.2.locals.length :=
    (h.matched x hx).locals.length_eq
  constructor
  · rintro a b c (hac | ⟨x, hx, i, hi, rfl, rfl⟩) (hbc | ⟨y, hy, j, hj, rfl, hc⟩)
    · exact hd.fields.unique.1 hac hbc
    · have := (hd.field_lt hac).2
      have := (after hy).2
      rw [hc] at *
      simp at *
      omega
    · have := (hd.field_lt hbc).2
      have := (after hx).2
      simp at *
      omega
    · have same : x.2.base + i = y.2.base + j := by simpa using hc
      obtain ⟨rfl, rfl⟩ := h.place_right hq hx hy (length hx ▸ hi) (length hy ▸ hj) same
      rfl
  · rintro a b c (hab | ⟨x, hx, i, hi, rfl, rfl⟩) (hac | ⟨y, hy, j, hj, hb, rfl⟩)
    · exact hd.fields.unique.2 hab hac
    · have := (hd.field_lt hab).1
      have := (after hy).1
      rw [hb] at *
      simp at *
      omega
    · have := (hd.field_lt hac).1
      have := (after hx).1
      simp at *
      omega
    · have same : x.1.base + i = y.1.base + j := by simpa using hb
      obtain ⟨rfl, rfl⟩ := h.place_left hp hx hy hi hj same
      rfl

/-- the body of one of two corresponding declarations is paired with that of the other, or neither has a body -/
theorem paired_or_none (h : PlacedPairs R s s' ps qs pairs) {κ : Type} {r : κ → κ → Prop} (hr : Relator.BiUnique r)
    (key : Body → Option κ) (hkey : ∀ {b b'}, Body.Alike R s s' b b' → Option.Rel r (key b) (key b')) {a a' : κ}
    (ha : r a a') : (∃ x ∈ pairs, key x.1.body = some a ∧ key x.2.body = some a') ∨
      (∀ p ∈ ps, key p.body ≠ some a) ∧ ∀ q ∈ qs, key q.body ≠ some a' := by
  by_cases hx : ∃ x ∈ pairs, key x.1.body = some a
  · obtain ⟨x, hx, hk⟩ := hx
    rcases optionRel_cases (hkey (h.matched x hx).body) with ⟨hnone, -⟩ | ⟨c, c', hc, hc', hcc⟩
    · simp [hk] at hnone
    · obtain rfl : a = c := by simpa [hk] using hc
      exact Or.inl ⟨x, hx, hk, by rw [hc', hr.2 ha hcc]⟩
  · refine Or.inr ⟨fun p hp hk => ?_, fun q hq hk => ?_⟩
    · obtain ⟨x, hmem, rfl⟩ := h.mem_left.1 hp
      exact hx ⟨x, hmem, hk⟩
    · obtain ⟨x, hmem, rfl⟩ := h.mem_right.1 hq
      rcases optionRel_cases (hkey (h.matched x hmem).body) with ⟨-, hnone⟩ | ⟨c, c', hc, hc', hcc⟩
      · simp [hk] at hnone
      · obtain rfl : a' = c' := by simpa [hk] using hc'
        exact hx ⟨x, hmem, by rw [hc, hr.1 ha hcc]⟩

variable {u u' : CompilationUnit}

theorem methods (h : PlacedPairs R s s' ps qs pairs) (hd : d.Matches R s s' d') (hu : u.methods = d.methods)
    (hu' : u'.methods = d'.methods) (ha : ps.Pairwise fun p q => p.body.Apart q.body)
    (ha' : qs.Pairwise fun p q => p.body.Apart q.body) :
    OneToOne R.methods (MethodDecl.Matches (R.placed pairs)) (ps.foldl (Placed.put s) u).methodAt?
      (qs.foldl (Placed.put s') u').methodAt? := by
  refine ⟨hd.methods.unique, fun {a a'} haa => ?_, fun {a w} hw => ?_, fun {a w} hw => ?_⟩
  · obtain ⟨m, m', hm, hm', hmm⟩ := hd.methods.related haa
    have found : u.methodAt? a = some m := by rw [CompilationUnit.methodAt?, hu, hm]
    have found' : u'.methodAt? a' = some m' := by rw [CompilationUnit.methodAt?, hu', hm']
    rcases h.paired_or_none hd.methods.unique Body.method? Body.Alike.method? haa with ⟨x, hx, hk, hk'⟩ | ⟨hnone, hnone'⟩
    · rw [CompilationUnit.methodAt?_of_mem u ha (h.mem_left.2 ⟨x, hx, rfl⟩) hk,
        CompilationUnit.methodAt?_of_mem u' ha' (h.mem_right.2 ⟨x, hx, rfl⟩) hk', found, found']
      have code := listMatches_mono (R.locals_grows_placed hx) _ (h.matched x hx).code
      exact ⟨_, _, rfl, rfl, hmm.withBody (R.grows_placed pairs) (.some code)⟩
    · rw [CompilationUnit.methodAt?_of_none u hnone, CompilationUnit.methodAt?_of_none u' hnone', found, found']
      exact ⟨_, _, rfl, rfl, hmm.grow (R.grows_placed pairs)⟩
  · have there : (u.methodAt? a).isSome := by rw [← CompilationUnit.isSome_methodAt?_foldl s ps, hw]; rfl
    obtain ⟨m, hm⟩ := Option.isSome_iff_exists.1 there
    rw [CompilationUnit.methodAt?, hu] at hm
    exact hd.methods.left hm
  · have there : (u'.methodAt? a).isSome := by
      rw [← CompilationUnit.isSome_methodAt?_foldl s' qs, hw]
      rfl
    obtain ⟨m, hm⟩ := Option.isSome_iff_exists.1 there
    rw [CompilationUnit.methodAt?, hu'] at hm
    exact hd.methods.right hm

/-! ### Variables -/

theorem field_lt_left (h : PlacedPairs R s s' ps qs pairs) (hd : d.Matches R s s' d') {p : Placed} (hp : p ∈ ps)
    {id : VariableId} (hid : p.body.field? = some id) : id.index < d.fields.size := by
  obtain ⟨x, hx, rfl⟩ := h.mem_left.1 hp
  rcases optionRel_cases (h.matched x hx).body.field? with ⟨hnone, -⟩ | ⟨c, c', hc, -, hcc⟩
  · simp [hid] at hnone
  · obtain rfl : id = c := by simpa [hid] using hc
    exact (hd.field_lt hcc).1

theorem field_lt_right (h : PlacedPairs R s s' ps qs pairs) (hd : d.Matches R s s' d') {q : Placed} (hq : q ∈ qs)
    {id : VariableId} (hid : q.body.field? = some id) : id.index < d'.fields.size := by
  obtain ⟨x, hx, rfl⟩ := h.mem_right.1 hq
  rcases optionRel_cases (h.matched x hx).body.field? with ⟨-, hnone⟩ | ⟨c, c', -, hc', hcc⟩
  · simp [hid] at hnone
  · obtain rfl : id = c' := by simpa [hid] using hc'
    exact (hd.field_lt hcc).2

/-- fields correspond as before, and get corresponding initializers -/
theorem field_related (h : PlacedPairs R s s' ps qs pairs) (hd : d.Matches R s s' d') (hu : u.variableDecls = d.fields)
    (hu' : u'.variableDecls = d'.fields) (ha : ps.Pairwise fun p q => p.body.Apart q.body)
    (ha' : qs.Pairwise fun p q => p.body.Apart q.body) {a a' : VariableId} (haa : R.vars a a') :
    ∃ v v', (ps.foldl (Placed.put s) u).variableAt? a = some v ∧ (qs.foldl (Placed.put s') u').variableAt? a' = some v' ∧
      v.Matches (R.placed pairs) v' := by
  obtain ⟨v, v', hv, hv', hvv⟩ := hd.fields.related haa
  obtain ⟨lt, lt'⟩ := hd.field_lt haa
  have found : u.variableAt? a = some v := by rw [CompilationUnit.variableAt?, hu, hv]
  have found' : u'.variableAt? a' = some v' := by rw [CompilationUnit.variableAt?, hu', hv']
  rw [← hu] at lt
  rw [← hu'] at lt'
  rcases h.paired_or_none hd.fields.unique Body.field? Body.Alike.field? haa with ⟨x, hx, hk, hk'⟩ | ⟨hnone, hnone'⟩
  · rw [CompilationUnit.variableAt?_of_mem u ha (h.mem_left.2 ⟨x, hx, rfl⟩) lt hk,
      CompilationUnit.variableAt?_of_mem u' ha' (h.mem_right.2 ⟨x, hx, rfl⟩) lt' hk', found, found']
    have code := listMatches_mono (R.locals_grows_placed hx) _ (h.matched x hx).code
    exact ⟨_, _, rfl, rfl, hvv.withInitializer (R.grows_placed pairs) (forall₂_head? code)⟩
  · rw [CompilationUnit.variableAt?_of_none u lt hnone, CompilationUnit.variableAt?_of_none u' lt' hnone', found, found']
    exact ⟨_, _, rfl, rfl, hvv.grow (R.grows_placed pairs)⟩

/-- local variables correspond by their places in corresponding bodies -/
theorem local_related (h : PlacedPairs R s s' ps qs pairs) (hd : d.Matches R s s' d') (hu : u.variableDecls = d.fields)
    (hu' : u'.variableDecls = d'.fields) (hp : PlacedFrom d.fields.size ps) (hq : PlacedFrom d'.fields.size qs)
    {x : Placed × Placed} (hx : x ∈ pairs) {k : Nat} (hk : k < x.1.locals.length) :
    ∃ v v', (ps.foldl (Placed.put s) u).variableAt? ⟨x.1.base + k⟩ = some v ∧
      (qs.foldl (Placed.put s') u').variableAt? ⟨x.2.base + k⟩ = some v' ∧ v.Matches (R.placed pairs) v' := by
  have locals := (h.matched x hx).locals
  have hk' : k < x.2.locals.length := locals.length_eq ▸ hk
  rw [← hu] at hp
  rw [← hu'] at hq
  rw [CompilationUnit.variableAt?_local u hp (congrArg Array.size hu).ge (fun p hp id => h.field_lt_left hd hp)
      (h.mem_left.2 ⟨x, hx, rfl⟩) hk,
    CompilationUnit.variableAt?_local u' hq (congrArg Array.size hu').ge (fun q hq id => h.field_lt_right hd hq)
      (h.mem_right.2 ⟨x, hx, rfl⟩) hk',
    List.getElem?_eq_getElem hk, List.getElem?_eq_getElem hk']
  exact ⟨_, _, rfl, rfl, (locals.get hk hk').grow (R.locals_grows_placed hx)⟩

/-- every variable of the first unit corresponds to one: it is a field, or a local variable of one of the bodies -/
theorem exists_right (h : PlacedPairs R s s' ps qs pairs) (hd : d.Matches R s s' d') (hu : u.variableDecls = d.fields)
    (hp : PlacedFrom d.fields.size ps) {a : VariableId} {v : VariableDecl}
    (hv : (ps.foldl (Placed.put s) u).variableAt? a = some v) : ∃ a', (R.placed pairs).vars a a' := by
  by_cases hi : a.index < d.fields.size
  · obtain ⟨a', ha⟩ := hd.fields.left (Array.getElem?_eq_getElem hi)
    exact ⟨a', Or.inl ha⟩
  · have total := (Array.getElem?_eq_some_iff.1 hv).1
    rw [CompilationUnit.size_foldl, hu] at total
    obtain ⟨p, hmem, k, hk, hik⟩ := hp.covers (Nat.not_lt.1 hi) total
    obtain ⟨x, hx, rfl⟩ := h.mem_left.1 hmem
    exact ⟨⟨x.2.base + k⟩, Or.inr ⟨x, hx, k, hk, by rw [← hik], rfl⟩⟩

theorem exists_left (h : PlacedPairs R s s' ps qs pairs) (hd : d.Matches R s s' d') (hu' : u'.variableDecls = d'.fields)
    (hq : PlacedFrom d'.fields.size qs) {a' : VariableId} {v : VariableDecl}
    (hv : (qs.foldl (Placed.put s') u').variableAt? a' = some v) : ∃ a, (R.placed pairs).vars a a' := by
  by_cases hi : a'.index < d'.fields.size
  · obtain ⟨a, ha⟩ := hd.fields.right (Array.getElem?_eq_getElem hi)
    exact ⟨a, Or.inl ha⟩
  · have total := (Array.getElem?_eq_some_iff.1 hv).1
    rw [CompilationUnit.size_foldl, hu'] at total
    obtain ⟨q, hmem, k, hk, hik⟩ := hq.covers (Nat.not_lt.1 hi) total
    obtain ⟨x, hx, rfl⟩ := h.mem_right.1 hmem
    have length := (h.matched x hx).locals.length_eq
    exact ⟨⟨x.1.base + k⟩, Or.inr ⟨x, hx, k, length ▸ hk, rfl, by rw [← hik]⟩⟩

theorem vars (h : PlacedPairs R s s' ps qs pairs) (hd : d.Matches R s s' d') (hu : u.variableDecls = d.fields)
    (hu' : u'.variableDecls = d'.fields) (ha : ps.Pairwise fun p q => p.body.Apart q.body)
    (ha' : qs.Pairwise fun p q => p.body.Apart q.body) (hp : PlacedFrom d.fields.size ps)
    (hq : PlacedFrom d'.fields.size qs) :
    OneToOne (R.placed pairs).vars (VariableDecl.Matches (R.placed pairs)) (ps.foldl (Placed.put s) u).variableAt?
      (qs.foldl (Placed.put s') u').variableAt? := by
  refine ⟨h.biUnique hd hp hq, fun {a a'} haa => ?_, h.exists_right hd hu hp, h.exists_left hd hu' hq⟩
  rcases haa with haa | ⟨x, hx, k, hk, rfl, rfl⟩
  · exact h.field_related hd hu hu' ha ha' haa
  · exact h.local_related hd hu hu' hp hq hx hk

/-! ### Blocks -/

theorem blocks (h : PlacedPairs R s s' ps qs pairs) :
    PermRel (InitializerBlock.Matches (R.placed pairs)) (ps.filterMap (Placed.block? s))
      (qs.filterMap (Placed.block? s')) := by
  have lists : PermRel (fun p q => ∃ x ∈ pairs, x.1 = p ∧ x.2 = q) ps qs := by
    refine ⟨pairs.map (·.1), h.left.symm, ?_⟩
    rw [← h.right, List.forall₂_map_left_iff, List.forall₂_map_right_iff]
    exact List.forall₂_same.2 fun x hx => ⟨x, hx, rfl, rfl⟩
  refine lists.filterMap fun p q hpq => ?_
  obtain ⟨x, hx, rfl, rfl⟩ := hpq
  have code := listMatches_mono (R.locals_grows_placed hx) _ (h.matched x hx).code
  have body := (h.matched x hx).body
  rw [Placed.block?, Placed.block?]
  generalize x.1.body = b, x.2.body = b' at body
  cases body with
  | block howner hn => exact .some ⟨howner, code, hn.span⟩
  | _ => exact .none

end PlacedPairs

/-! ## Units -/

section Units

variable {R : Correspondence} {s s' : Source} {d d' : Declarations} (path : String) (package : Option String)
  (imports : List Import)

/-- a body only adds variables, as it goes like a body of the other file -/
theorem Body.Alike.adds {b b' : Body} (h : Body.Alike R s s' b b') (hd : d.Matches R s s' d') {u u' : CompilationUnit}
    (hu : u.Headed d) (hu' : u'.Headed d') :
    (∀ code st, b.lower s d u = .ok (code, st) → ∃ ls, st.variableDecls.toList = u.variableDecls.toList ++ ls) ∧
      ∀ code st, b'.lower s' d' u' = .ok (code, st) →
        ∃ ls, st.variableDecls.toList = u'.variableDecls.toList ++ ls := by
  have paired := h.lower hd hu hu'
  constructor
  · intro code st hrun
    rw [hrun] at paired
    cases hrun' : b'.lower s' d' u' with
    | error f => simp [hrun', BothFaultOr] at paired
    | ok r =>
      rw [hrun'] at paired
      obtain ⟨m, ⟨⟨ls, ls', hls, -⟩, -⟩, -⟩ := paired
      exact ⟨ls, hls⟩
  · intro code st hrun'
    rw [hrun'] at paired
    cases hrun : b.lower s d u with
    | error f => simp [hrun, BothFaultOr] at paired
    | ok r =>
      rw [hrun] at paired
      obtain ⟨m, ⟨⟨ls, ls', -, hls', -⟩, -⟩, -⟩ := paired
      exact ⟨ls', hls'⟩

/-- the first file is a unit with its lowered bodies, or a body has a fault -/
theorem Declarations.Matches.placed_left (hd : d.Matches R s s' d') :
    Safe (∃ b ∈ d.bodies.toList, ∃ v f, v.Headed d ∧ b.lower s d v = .error f)
      (fun u => ∃ ps : List Placed, ps.map (·.body) = d.bodies.toList ∧ PlacedFrom d.fields.size ps ∧
        (∀ p ∈ ps, p.Ran s d) ∧ u = ps.foldl (Placed.put s) (d.headers path package imports))
      (d.bodies.foldlM (CompilationUnit.lowerBody s d) (d.headers path package imports)) := by
  rw [← Array.foldlM_toList]
  refine CompilationUnit.lowerBodies_placed (fun b hb v hv => ?_) (d.headers_headed path package imports)
  obtain ⟨b', -, halike⟩ := hd.bodies.mem_left hb
  exact (halike.adds hd hv (d'.headers_headed path package imports)).1

/-- the second file is a unit with its lowered bodies, or a body has a fault -/
theorem Declarations.Matches.placed_right (hd : d.Matches R s s' d') :
    Safe (∃ b ∈ d'.bodies.toList, ∃ v f, v.Headed d' ∧ b.lower s' d' v = .error f)
      (fun u => ∃ ps : List Placed, ps.map (·.body) = d'.bodies.toList ∧ PlacedFrom d'.fields.size ps ∧
        (∀ p ∈ ps, p.Ran s' d') ∧ u = ps.foldl (Placed.put s') (d'.headers path package imports))
      (d'.bodies.foldlM (CompilationUnit.lowerBody s' d') (d'.headers path package imports)) := by
  rw [← Array.foldlM_toList]
  refine CompilationUnit.lowerBodies_placed (fun b hb v hv => ?_) (d'.headers_headed path package imports)
  obtain ⟨b', -, halike⟩ := hd.bodies.mem_right hb
  exact (halike.adds hd (d.headers_headed path package imports) hv).2

theorem PlacedPairs.of_ran (hd : d.Matches R s s' d') {ps qs : List Placed} (hps : ps.map (·.body) = d.bodies.toList)
    (hqs : qs.map (·.body) = d'.bodies.toList) (hp : ∀ p ∈ ps, p.Ran s d) (hq : ∀ q ∈ qs, q.Ran s' d') :
    ∃ pairs, PlacedPairs R s s' ps qs pairs := by
  have bodies := hd.bodies
  rw [← hps, ← hqs] at bodies
  obtain ⟨cs, hperm, hf⟩ := bodies.of_map
  obtain ⟨pairs, hleft, hright, halike⟩ := forall₂_pairs hf
  refine ⟨pairs, hleft ▸ hperm.symm, hright, fun x hx => ?_⟩
  have left : x.1 ∈ ps := hperm.mem_iff.2 (hleft ▸ List.mem_map_of_mem hx)
  have right : x.2 ∈ qs := hright ▸ List.mem_map_of_mem hx
  exact (hp x.1 left).matches (hq x.2 right) hd (halike x hx)

/-- where one file has all of its bodies lowered, no body of the other file has a fault -/
theorem Declarations.Matches.runs_left (hd : d.Matches R s s' d') {qs : List Placed}
    (hqs : qs.map (·.body) = d'.bodies.toList) (hran : ∀ q ∈ qs, q.Ran s' d') {b : Body} (hb : b ∈ d.bodies.toList)
    {v : CompilationUnit} (hv : v.Headed d) (f : Fault) : b.lower s d v ≠ .error f := by
  intro hfault
  obtain ⟨b', hb', halike⟩ := hd.bodies.mem_left hb
  rw [← hqs] at hb'
  obtain ⟨q, hq, rfl⟩ := List.mem_map.1 hb'
  obtain ⟨v', st', hv', -, hrun', -⟩ := hran q hq
  have paired := halike.lower hd hv hv'
  rw [hfault, hrun'] at paired
  exact paired.elim

theorem Declarations.Matches.runs_right (hd : d.Matches R s s' d') {ps : List Placed}
    (hps : ps.map (·.body) = d.bodies.toList) (hran : ∀ p ∈ ps, p.Ran s d) {b' : Body} (hb' : b' ∈ d'.bodies.toList)
    {v' : CompilationUnit} (hv' : v'.Headed d') (f : Fault) : b'.lower s' d' v' ≠ .error f := by
  intro hfault
  obtain ⟨b, hb, halike⟩ := hd.bodies.mem_right hb'
  rw [← hps] at hb
  obtain ⟨p, hp, rfl⟩ := List.mem_map.1 hb
  obtain ⟨v, st, hv, -, hrun, -⟩ := hran p hp
  have paired := halike.lower hd hv hv'
  rw [hfault, hrun] at paired
  exact paired.elim

/-- the units that have all bodies lowered match -/
theorem PlacedPairs.units {ps qs : List Placed} {pairs : List (Placed × Placed)} {imports imports' : List Import}
    (h : PlacedPairs R s s' ps qs pairs) (hd : d.Matches R s s' d') (ha : ps.Pairwise fun p q => p.body.Apart q.body)
    (ha' : qs.Pairwise fun p q => p.body.Apart q.body) (hp : PlacedFrom d.fields.size ps)
    (hq : PlacedFrom d'.fields.size qs) (hi : List.Forall₂ (Import.Matches R) imports imports') :
    (ps.foldl (Placed.put s) (d.headers path package imports)).Matches (R.placed pairs)
      (qs.foldl (Placed.put s') (d'.headers path package imports')) := by
  obtain ⟨hpath, hpackage, himports, htypes, herrors⟩ := CompilationUnit.headers_foldl s ps
    (d.headers path package imports)
  obtain ⟨hpath', hpackage', himports', htypes', herrors'⟩ := CompilationUnit.headers_foldl s' qs
    (d'.headers path package imports')
  refine ⟨by rw [hpath, hpath']; rfl, by rw [hpackage, hpackage']; rfl, ?_, ?_, h.methods hd rfl rfl ha ha',
    h.vars hd rfl rfl ha ha' hp hq, ?_, by rw [herrors, herrors']; rfl⟩
  · rw [himports, himports']
    exact hi.imp fun _ _ h => ⟨h.path, h.isStatic, h.onDemand, h.span⟩
  · have types := (hd.toAgree.grow (R.grows_placed pairs)).types
    have typeAt {v : CompilationUnit} {e : Declarations} (hv : v.types = e.types) : v.typeAt? = e.typeAt? :=
      funext fun id => by rw [CompilationUnit.typeAt?, hv]; rfl
    rwa [typeAt htypes, typeAt htypes']
  · rw [CompilationUnit.blocks_foldl, CompilationUnit.blocks_foldl]
    exact h.blocks

/-- **Files whose declarations match have matching units**, or neither has one. -/
theorem Declarations.Matches.units {imports imports' : List Import} (hd : d.Matches R s s' d') (ha : d.bodies.toList.Pairwise Body.Apart)
    (ha' : d'.bodies.toList.Pairwise Body.Apart) (hi : List.Forall₂ (Import.Matches R) imports imports') :
    BothFaultOr (fun u u' => ∃ R', R.Grows R' ∧ u.Matches R' u')
      (d.bodies.foldlM (CompilationUnit.lowerBody s d) (d.headers path package imports))
      (d'.bodies.foldlM (CompilationUnit.lowerBody s' d') (d'.headers path package imports')) := by
  have run := hd.placed_left path package imports
  have run' := hd.placed_right path package imports'
  cases hr : d.bodies.foldlM (CompilationUnit.lowerBody s d) (d.headers path package imports) with
  | error f =>
    cases hr' : d'.bodies.foldlM (CompilationUnit.lowerBody s' d') (d'.headers path package imports') with
    | error f' => trivial
    | ok u' =>
      rw [hr] at run
      rw [hr'] at run'
      obtain ⟨b, hb, v, f, hv, hfault⟩ := run
      obtain ⟨qs, hqs, -, hran', -⟩ := run'
      exact hd.runs_left hqs hran' hb hv f hfault
  | ok u =>
    rw [hr] at run
    obtain ⟨ps, hps, hfrom, hran, hu⟩ := run
    cases hr' : d'.bodies.foldlM (CompilationUnit.lowerBody s' d') (d'.headers path package imports') with
    | error f' =>
      rw [hr'] at run'
      obtain ⟨b', hb', v', f, hv', hfault⟩ := run'
      exact hd.runs_right hps hran hb' hv' f hfault
    | ok u' =>
      rw [hr'] at run'
      obtain ⟨qs, hqs, hfrom', hran', hu'⟩ := run'
      obtain ⟨pairs, h⟩ := PlacedPairs.of_ran hd hps hqs hran hran'
      have apart : ps.Pairwise fun p q => p.body.Apart q.body := List.pairwise_map.1 (hps ▸ ha)
      have apart' : qs.Pairwise fun p q => p.body.Apart q.body := List.pairwise_map.1 (hqs ▸ ha')
      refine ⟨R.placed pairs, R.grows_placed pairs, ?_⟩
      rw [hu, hu']
      exact h.units path package hd apart apart' hfrom hfrom' hi

end Units

end CallLint
