/-
The bodies that are collected from a file. `Gathers` says what a part of the collection adds to the declarations: bodies
whose methods and fields await them, in the order of the text, and that hold together what is kept of the nodes they
come from. Parts of the collection compose (`Gathers.append`), so `ofFile_gathers` follows the recursion of the
collection: one lemma for each kind of member, and then types, bodies of types and lists by one induction over the tree.
-/
import CallLint.Proofs.CallSites.Kept
import CallLint.Proofs.CallSites.Lowered
import CallLint.Proofs.Grammar.Ranges

namespace CallLint

/-! ## Ascending offsets -/

/-- offsets that ascend strictly from `lo` on and stay below `hi` -/
def Ascending : Nat → List Nat → Nat → Prop
  | lo, [], hi => lo ≤ hi
  | lo, a :: as, hi => lo ≤ a ∧ Ascending (a + 1) as hi

theorem Ascending.mono {lo lo' hi hi' : Nat} {as : List Nat} (h : Ascending lo as hi) (hlo : lo' ≤ lo) (hhi : hi ≤ hi') :
    Ascending lo' as hi' := by
  induction as generalizing lo lo' with
  | nil => exact hlo.trans (le_trans h hhi)
  | cons a as ih => exact ⟨hlo.trans h.1, ih h.2 le_rfl⟩

theorem Ascending.append {lo mid hi : Nat} {as bs : List Nat} (h : Ascending lo as mid) (k : Ascending mid bs hi) :
    Ascending lo (as ++ bs) hi := by
  induction as generalizing lo with
  | nil => exact k.mono h le_rfl
  | cons a as ih => exact ⟨h.1, ih h.2⟩

theorem Ascending.pairwise {lo hi : Nat} {as : List Nat} (h : Ascending lo as hi) : as.Pairwise (· < ·) := by
  have ge : ∀ {lo : Nat} {as : List Nat}, Ascending lo as hi → ∀ a ∈ as, lo ≤ a := by
    intro lo as h
    induction as generalizing lo with
    | nil => simp
    | cons b as ih =>
      intro a ha
      rcases List.mem_cons.1 ha with rfl | ha
      · exact h.1
      · exact (h.1.trans (Nat.le_succ b)).trans (ih h.2 a ha)
  induction as generalizing lo with
  | nil => exact .nil
  | cons a as ih => exact .cons (fun b hb => ge h.2 b hb) (ih h.2)

/-! ## Bodies -/

namespace Body

/-- the node whose code the body is -/
def node : Body → Node
  | .method _ n => n
  | .field _ _ value => value
  | .block _ n => n

/-- where the code of the body stands -/
def position : Body → Position
  | .method _ _ => .routine
  | .field _ _ _ => .expression 0
  | .block _ n => if n.kind = .enumConstant then .constant else .group 0

/-- what a unit keeps of the body -/
def kept (s : Source) (b : Body) : List Written :=
  b.node.kept s b.position

/-- the code of a body has its shape -/
def Shaped : Body → Prop
  | .method _ n => n.Shaped ∧
    (n.kind = .methodDeclaration ∨ n.kind = .constructorDeclaration ∨ n.kind = .compactConstructorDeclaration)
  | .field _ _ value => value.Shaped
  | .block _ n => n.Shaped

theorem Shaped.node {b : Body} (h : b.Shaped) : b.node.Shaped := by
  cases b with
  | method id n => exact h.1
  | _ => exact h

/-- the method or field of the body is there and has no code yet; roots will sort the body by `start` -/
def Awaits (methods : List MethodDecl) (vars : List VariableDecl) (start : Nat) : Body → Prop
  | .method id _ => ∃ m, methods[id.index]? = some m ∧ m.body = none ∧ m.span.startByte = start
  | .field id _ _ =>
    ∃ v, vars[id.index]? = some v ∧ v.kind = .field ∧ v.initializer = none ∧ v.span.startByte = start
  | .block _ n => n.start = start

/-- the method or field of the body comes after so many others -/
def After (methods vars : Nat) : Body → Prop
  | .method id _ => methods ≤ id.index
  | .field id _ _ => vars ≤ id.index
  | .block _ _ => True

/-- the bodies belong to different declarations -/
def Apart : Body → Body → Prop
  | .method id _, .method id' _ => id.index ≠ id'.index
  | .field id _ _, .field id' _ _ => id.index ≠ id'.index
  | _, _ => True

theorem Awaits.append {b : Body} {ms : List MethodDecl} {vs : List VariableDecl} {start : Nat} (h : b.Awaits ms vs start)
    (ms' : List MethodDecl) (vs' : List VariableDecl) : b.Awaits (ms ++ ms') (vs ++ vs') start := by
  cases b with
  | method id n =>
    obtain ⟨m, hm, h⟩ := h
    exact ⟨m, by rw [List.getElem?_append_left (List.getElem?_eq_some_iff.1 hm).1, hm], h⟩
  | field id owner value =>
    obtain ⟨v, hv, h⟩ := h
    exact ⟨v, by rw [List.getElem?_append_left (List.getElem?_eq_some_iff.1 hv).1, hv], h⟩
  | block owner n => exact h

/-- a body whose declaration is there is apart from those whose declarations come later -/
theorem Awaits.apart {b b' : Body} {ms : List MethodDecl} {vs : List VariableDecl} {start : Nat} (h : b.Awaits ms vs start)
    (h' : b'.After ms.length vs.length) : b.Apart b' := by
  cases b with
  | method id n =>
    obtain ⟨m, hm, -⟩ := h
    have hlt := (List.getElem?_eq_some_iff.1 hm).1
    cases b' with
    | method id' n' => exact (hlt.trans_le h').ne
    | _ => trivial
  | field id owner value =>
    obtain ⟨v, hv, -⟩ := h
    have hlt := (List.getElem?_eq_some_iff.1 hv).1
    cases b' with
    | field id' owner' value' => exact (hlt.trans_le h').ne
    | _ => trivial
  | block owner n => cases b' <;> trivial

theorem After.mono {b : Body} {m m' v v' : Nat} (h : b.After m v) (hm : m' ≤ m) (hv : v' ≤ v) : b.After m' v' := by
  cases b with
  | method id n => exact hm.trans h
  | field id owner value => exact hv.trans h
  | block owner n => trivial

end Body

/-! ## Parts of the collection -/

/-- the bodies `bs`, each with its start, are new in the later declarations -/
structure Collects (lo hi : Nat) (d : Declarations) (bs : List (Body × Nat)) (d' : Declarations) : Prop where
  bodies : d'.bodies.toList = d.bodies.toList ++ bs.map (·.1)
  methods : ∃ ms, d'.methods.toList = d.methods.toList ++ ms ∧ ∀ m ∈ ms, m.body = none
  fields : ∃ vs, d'.fields.toList = d.fields.toList ++ vs ∧ ∀ v ∈ vs, v.kind = .field ∧ v.initializer = none
  awaits : ∀ b ∈ bs, b.1.Awaits d'.methods.toList d'.fields.toList b.2
  after : ∀ b ∈ bs, b.1.After d.methods.size d.fields.size
  apart : bs.Pairwise fun a b => a.1.Apart b.1
  starts : Ascending lo (bs.map (·.2)) hi

theorem Collects.append {lo mid hi : Nat} {d d' d'' : Declarations} {as bs : List (Body × Nat)}
    (h : Collects lo mid d as d') (k : Collects mid hi d' bs d'') : Collects lo hi d (as ++ bs) d'' := by
  obtain ⟨ms, hms, hmb⟩ := h.methods
  obtain ⟨ms', hms', hmb'⟩ := k.methods
  obtain ⟨vs, hvs, hvi⟩ := h.fields
  obtain ⟨vs', hvs', hvi'⟩ := k.fields
  have awaits : ∀ a ∈ as, a.1.Awaits d''.methods.toList d''.fields.toList a.2 := by
    intro a ha
    rw [hms', hvs']
    exact (h.awaits a ha).append ms' vs'
  refine ⟨?_, ⟨ms ++ ms', ?_, ?_⟩, ⟨vs ++ vs', ?_, ?_⟩, ?_, ?_, ?_, ?_⟩
  · rw [k.bodies, h.bodies, List.map_append, List.append_assoc]
  · rw [hms', hms, List.append_assoc]
  · exact fun m hm => (List.mem_append.1 hm).elim (hmb m) (hmb' m)
  · rw [hvs', hvs, List.append_assoc]
  · exact fun v hv => (List.mem_append.1 hv).elim (hvi v) (hvi' v)
  · exact fun b hb => (List.mem_append.1 hb).elim (awaits b) (k.awaits b)
  · intro b hb
    rcases List.mem_append.1 hb with hb | hb
    · exact h.after b hb
    · refine (k.after b hb).mono ?_ ?_
      · rw [← Array.length_toList, ← Array.length_toList, hms, List.length_append]
        exact Nat.le_add_right _ _
      · rw [← Array.length_toList, ← Array.length_toList, hvs, List.length_append]
        exact Nat.le_add_right _ _
  · refine List.pairwise_append.2 ⟨h.apart, k.apart, fun a ha b hb => (h.awaits a ha).apart ?_⟩
    simpa using k.after b hb
  · rw [List.map_append]
    exact h.starts.append k.starts

/-- the new bodies hold what is kept of some nodes; they have faults only when something is bad -/
def Gathers (s : Source) (bad : Prop) (lo hi : Nat) (d : Declarations) (w : List Written) (d' : Declarations) : Prop :=
  ∃ bs, Collects lo hi d bs d' ∧ (bs.flatMap fun b => b.1.kept s) = w ∧
    ∀ b ∈ bs, b.1.Shaped ∧ (b.1.node.Faulty s → bad)

namespace Gathers

variable {s : Source} {bad : Prop} {lo mid hi : Nat} {d d' d'' : Declarations} {w v : List Written}

theorem append (h : Gathers s bad lo mid d w d') (k : Gathers s bad mid hi d' v d'') :
    Gathers s bad lo hi d (w ++ v) d'' := by
  obtain ⟨as, ha, rfl, hga⟩ := h
  obtain ⟨bs, hb, rfl, hgb⟩ := k
  refine ⟨as ++ bs, ha.append hb, List.flatMap_append, fun b hb => ?_⟩
  exact (List.mem_append.1 hb).elim (hga b) (hgb b)

/-- new methods and fields without bodies -/
theorem headers (hb : d'.bodies = d.bodies)
    (hm : ∃ ms, d'.methods.toList = d.methods.toList ++ ms ∧ ∀ m ∈ ms, m.body = none)
    (hf : ∃ vs, d'.fields.toList = d.fields.toList ++ vs ∧ ∀ v ∈ vs, v.kind = .field ∧ v.initializer = none)
    (hlo : lo ≤ hi) : Gathers s bad lo hi d [] d' :=
  ⟨[], ⟨by simp [hb], hm, hf, by simp, by simp, .nil, hlo⟩, rfl, by simp⟩

theorem nothing (hlo : lo ≤ hi) : Gathers s bad lo hi d [] d :=
  headers rfl ⟨[], by simp⟩ ⟨[], by simp⟩ hlo

theorem mono {bad' : Prop} {lo' hi' : Nat} (h : Gathers s bad lo hi d w d') (hb : bad → bad') (hlo : lo' ≤ lo)
    (hhi : hi ≤ hi') : Gathers s bad' lo' hi' d w d' := by
  obtain ⟨bs, hc, hw, hg⟩ := h
  exact ⟨bs, { hc with starts := hc.starts.mono hlo hhi }, hw, fun b hb' => ⟨(hg b hb').1, fun hf => hb ((hg b hb').2 hf)⟩⟩

/-- one body, whose declaration is among the last ones -/
theorem body (b : Body) (start : Nat) (hb : d'.bodies = d.bodies.push b)
    (hm : ∃ ms, d'.methods.toList = d.methods.toList ++ ms ∧ ∀ m ∈ ms, m.body = none)
    (hf : ∃ vs, d'.fields.toList = d.fields.toList ++ vs ∧ ∀ v ∈ vs, v.kind = .field ∧ v.initializer = none)
    (ha : b.Awaits d'.methods.toList d'.fields.toList start) (hafter : b.After d.methods.size d.fields.size)
    (hlo : lo ≤ start) (hhi : start < hi) (hn : b.Shaped) :
    Gathers s (b.node.Faulty s) lo hi d (b.kept s) d' := by
  refine ⟨[(b, start)], ⟨by simp [hb], hm, hf, by simpa using ha, by simpa using hafter, by simp, hlo, hhi⟩, by simp, ?_⟩
  intro b' hb'
  obtain rfl := List.mem_singleton.1 hb'
  exact ⟨hn, id⟩

end Gathers

namespace Declarations

variable {s : Source} {bad : Prop} {owner : TypeId} {n : Node} {d : Declarations}

/-! ## Members -/

/-- one declarator of a field -/
theorem field_gathers (hn : n.Shaped) (hk : n.kind = .variableDeclarator) (hne : n.start < n.stop) (type : String)
    (isFinal : Bool) :
    Gathers s (n.Faulty s) n.start n.stop d (n.kept s (.declarator 0))
      (match n.child? .name with
        | none => d
        | some name =>
          let id : VariableId := ⟨d.fields.size⟩
          let d := d.addField owner (s.textOf name) type isFinal (s.spanOf n)
          match n.child? .value with
          | none => d
          | some value => d.addBody (.field id owner value)) := by
  have hform := hn.form (f := ⟨[.role .value], [.role .name], []⟩) (by rw [hk]; rfl)
  obtain ⟨name, hname⟩ := hn.child?_of_needed (hform.needed (.role .name) (by simp))
  have fields (v : VariableDecl) (hv : v.kind = .field ∧ v.initializer = none) :
      ∃ vs, (d.fields.push v).toList = d.fields.toList ++ vs ∧ ∀ v ∈ vs, v.kind = .field ∧ v.initializer = none :=
    ⟨[v], by simp, by simpa using hv⟩
  rw [hname, hn.kept_declarator hk, Node.keptIn]
  dsimp only
  cases hv : n.child? .value with
  | none => exact .headers rfl ⟨[], by simp [addField]⟩ (fields _ ⟨rfl, rfl⟩) hne.le
  | some value =>
    have hmem := Node.child?_mem hv
    have h : Gathers s (value.Faulty s) n.start n.stop d (Body.kept s (.field ⟨d.fields.size⟩ owner value))
        ((d.addField owner (s.textOf name) type isFinal (s.spanOf n)).addBody (.field ⟨d.fields.size⟩ owner value)) :=
      .body (.field ⟨d.fields.size⟩ owner value) n.start rfl ⟨[], by simp [addField, addBody], by simp⟩ (fields _ ⟨rfl, rfl⟩)
      ⟨_, by simp [addField, addBody]; rfl, rfl, rfl, rfl⟩ (le_refl d.fields.size) le_rfl hne (hn.child hmem)
    simpa [Body.kept, Body.node, Body.position] using h.mono (.inside hmem) le_rfl le_rfl

/-- the fields of a declaration; `ds` are declarators that are left to collect -/
theorem declarators_gather {ds : List Node} {lo hi : Nat} (hb : Between lo ds hi) (hn : n.Shaped)
    (hds : ∀ m ∈ ds, m ∈ n.children ∧ m.kind = .variableDeclarator) (type : String) (isFinal : Bool) :
    Gathers s (n.Faulty s) lo hi d (ds.flatMap (·.kept s (.declarator 0)))
      (ds.foldl (fun d declarator =>
        match declarator.child? .name with
        | none => d
        | some name =>
          let id : VariableId := ⟨d.fields.size⟩
          let d := d.addField owner (s.textOf name) type isFinal (s.spanOf declarator)
          match declarator.child? .value with
          | none => d
          | some value => d.addBody (.field id owner value)) d) := by
  induction ds generalizing d lo with
  | nil => exact .nothing hb
  | cons m ds ih =>
    obtain ⟨hlo, hne, hrest⟩ := hb
    obtain ⟨hmem, hk⟩ := hds m List.mem_cons_self
    have others := fun d => ih (d := d) hrest fun m hm => hds m (List.mem_cons_of_mem _ hm)
    exact ((field_gathers (hn.child hmem) hk hne type isFinal).mono (.inside hmem) hlo le_rfl).append (others _)

theorem addFields_gathers (hn : n.Shaped) (ho : n.InOrder)
    (hk : n.kind = .fieldDeclaration ∨ n.kind = .constantDeclaration) :
    Gathers s (n.Faulty s) n.start n.stop d (n.kept s .fields) (d.addFields s owner n) := by
  rw [Node.kept_fields]
  refine declarators_gather ?_ hn (fun m hm => ?_) _ _
  · exact ho.children.sublist List.filter_sublist
  · obtain ⟨hmem, hr⟩ := List.mem_filter.1 hm
    refine ⟨hmem, ?_⟩
    rcases hn.declared (Or.inr hk) hmem with hd | hd
    · exact hd.2
    · exact absurd (by simpa using hr) hd.1

/-- one more method, with its body when it has one -/
theorem method_gathers (hn : n.Shaped) (hne : n.start < n.stop)
    (hk : n.kind = .methodDeclaration ∨ n.kind = .constructorDeclaration ∨ n.kind = .compactConstructorDeclaration)
    (members : Array Members) {method : MethodDecl} (hbody : method.body = none) (hspan : method.span = s.spanOf n) :
    Gathers s (n.Faulty s) n.start n.stop d (n.kept s .routine)
      (if (n.child? .body).isSome then
        addBody { d with methods := d.methods.push method, members := members } (.method ⟨d.methods.size⟩ n)
      else { d with methods := d.methods.push method, members := members }) := by
  have methods : ∃ ms, (d.methods.push method).toList = d.methods.toList ++ ms ∧ ∀ m ∈ ms, m.body = none :=
    ⟨[method], by simp, by simpa using hbody⟩
  have fields : ∃ vs, d.fields.toList = d.fields.toList ++ vs ∧ ∀ v ∈ vs, v.kind = .field ∧ v.initializer = none :=
    ⟨[], by simp⟩
  split_ifs with hb
  · have awaits : (Body.method ⟨d.methods.size⟩ n).Awaits (d.methods.push method).toList d.fields.toList n.start :=
      ⟨method, by simp, hbody, by rw [hspan]; rfl⟩
    exact .body (.method ⟨d.methods.size⟩ n) n.start rfl methods fields awaits (le_refl d.methods.size) le_rfl hne
      ⟨hn, hk⟩
  · have none : n.child? .body = none := by simpa using hb
    rw [hn.kept_routine hk, Node.keptIn, none]
    exact .headers rfl methods fields hne.le

theorem addMethod_gathers (hn : n.Shaped) (hne : n.start < n.stop)
    (hk : n.kind = .methodDeclaration ∨ n.kind = .constructorDeclaration ∨ n.kind = .compactConstructorDeclaration) :
    Gathers s (n.Faulty s) n.start n.stop d (n.kept s .routine) (d.addMethod s owner n) := by
  have named : ∃ name, (if n.kind == .methodDeclaration then (n.child? .name).map s.textOf else some constructorName) =
      some name := by
    rcases hk with hk | hk | hk
    · have hform := hn.form (f := ⟨[.role .body], [.role .name], [.role .parameters]⟩) (by rw [hk]; rfl)
      obtain ⟨name, hname⟩ := hn.child?_of_needed (hform.needed (.role .name) (by simp))
      exact ⟨s.textOf name, by simp [hk, hname]⟩
    · exact ⟨constructorName, by simp [hk]⟩
    · exact ⟨constructorName, by simp [hk]⟩
  obtain ⟨name, hname⟩ := named
  unfold addMethod
  dsimp only
  rw [hname]
  exact method_gathers hn hne hk _ rfl rfl

/-- a body that no method or field awaits -/
theorem addBlock_gathers (s : Source) (owner : TypeId) (d : Declarations) (hn : n.Shaped) (hne : n.start < n.stop) :
    Gathers s (n.Faulty s) n.start n.stop d (n.kept s (Body.block owner n).position) (d.addBody (.block owner n)) :=
  .body (.block owner n) n.start rfl ⟨[], by simp [addBody]⟩ ⟨[], by simp [addBody]⟩ rfl trivial le_rfl hne hn

theorem addMember_gathers (hn : n.Shaped) (ho : n.InOrder) (hne : n.start < n.stop)
    (htype : n.kind.isTypeDeclaration = false) (hmore : n.kind ≠ .enumBodyDeclarations) :
    Gathers s (n.Faulty s) n.start n.stop d (n.kept s (Position.ofMember n.kind)) (d.addMember s owner n) := by
  have position {k : NodeKind} (hk : n.kind = k) {p : Position} (hp : Position.ofMember k = p) :
      Position.ofMember n.kind = p := by rw [hk, hp]
  unfold addMember
  split
  case h_1 hk => rw [position hk rfl]; exact addFields_gathers hn ho (Or.inl hk)
  case h_2 hk => rw [position hk rfl]; exact addFields_gathers hn ho (Or.inr hk)
  case h_3 hk => rw [position hk rfl]; exact addMethod_gathers hn hne (Or.inl hk)
  case h_4 hk => rw [position hk rfl]; exact addMethod_gathers hn hne (Or.inr (Or.inl hk))
  case h_5 hk => rw [position hk rfl]; exact addMethod_gathers hn hne (Or.inr (Or.inr hk))
  case h_6 hk =>
    rw [position (p := .group 0) hk rfl]
    simpa [Body.position, hk] using addBlock_gathers s owner d hn hne
  case h_7 hk =>
    rw [position (p := .group 0) hk rfl]
    simpa [Body.position, hk] using addBlock_gathers s owner d hn hne
  case h_8 hk =>
    rw [position (p := .constant) hk rfl]
    split_ifs with hparts
    · simpa [Body.position, hk] using addBlock_gathers s owner d hn hne
    · simp only [Bool.or_eq_true, not_or, Bool.not_eq_true, Option.isSome_eq_false_iff, Option.isNone_iff_eq_none] at hparts
      rw [hn.kept_constant hk, Node.keptIn, Node.keptIn, hparts.1, hparts.2]
      exact .nothing hne.le
  case h_9 =>
    have outside : Position.ofMember n.kind = .outside := by
      unfold Position.ofMember
      rw [if_neg (by simp [htype])]
      split <;> first | contradiction | rfl
    rw [outside, Node.kept_outside]
    exact .nothing hne.le

/-! ## Types -/

theorem addComponents_gathers (id : TypeId) (n : Node) (d : Declarations) (offset : Nat) :
    Gathers s bad offset offset d [] (d.addComponents s id n) := by
  have fold (ps : List Parameter) (span : Span) : Gathers s bad offset offset d []
      (ps.foldl (fun d p => d.addField id p.name p.type true span) d) := by
    induction ps generalizing d with
    | nil => exact .nothing le_rfl
    | cons p ps ih =>
      have first : Gathers s bad offset offset d [] (d.addField id p.name p.type true span) :=
        .headers rfl ⟨[], by simp [addField]⟩ ⟨[_], by simp [addField]; rfl, by simp⟩ le_rfl
      exact first.append (ih _)
  unfold addComponents
  split
  · exact fold _ _
  · exact .nothing le_rfl

/-- a named type is declared, so far without bodies -/
theorem addType?_gathers (bad : Prop) (hn : n.Shaped) (hk : n.kind.isTypeDeclaration = true) (enclosing : Option TypeId) (offset : Nat) :
    ∃ id d', d.addType? s enclosing n = some (id, d') ∧ Gathers s bad offset offset d [] d' := by
  have hform := hn.form (NodeKind.form_of_type hk)
  obtain ⟨name, hname⟩ := hn.child?_of_needed (hform.needed (.role .name) (by simp))
  refine ⟨_, _, by rw [addType?, hname]; rfl, ?_⟩
  have declared (names : NameTable) (types : Array TypeDecl) (members : Array Members) :
      Gathers s bad offset offset d [] { d with names := names, types := types, members := members } :=
    .headers rfl ⟨[], by simp⟩ ⟨[], by simp⟩ le_rfl
  split_ifs
  · exact (declared _ _ _).append (addComponents_gathers _ n _ offset)
  · exact declared _ _ _

/-- the position of what is collected for an owner, or at the top of the file -/
def positionFor (owner : Option TypeId) (kind : NodeKind) : Position :=
  if owner.isSome then Position.ofMember kind else if kind.isTypeDeclaration then .type else .outside

mutual

theorem collect_gathers (s : Source) : ∀ (n : Node) (owner : Option TypeId) (d : Declarations),
    n.Shaped → n.InOrder → n.start < n.stop →
      Gathers s (n.Faulty s) n.start n.stop d (n.kept s (positionFor owner n.kind)) (collect s owner n d)
  | .mk kind role start stop children, owner, d, hn, ho, hne => by
    have shaped : ∀ c ∈ children, c.Shaped := fun c hc => hn.child hc
    have inOrder : ∀ c ∈ children, c.InOrder := fun c hc => ho.child hc
    have bad : (∃ c ∈ children, c.Faulty s) → (Node.mk kind role start stop children).Faulty s :=
      fun ⟨c, hc, hf⟩ => .inside hc hf
    rw [collect.eq_def]
    dsimp only
    by_cases htype : kind.isTypeDeclaration = true
    · rw [if_pos htype]
      -- the header of a type gathers nothing, so its bodies may start where the type does
      obtain ⟨id, d', hadd, first⟩ := addType?_gathers (s := s) (d := d)
        ((Node.mk kind role start stop children).Faulty s) hn htype owner start
      rw [hadd]
      have body := collectBody_gathers s children id d' start stop shaped inOrder ho.children
      have position : positionFor owner kind = .type := by
        cases owner <;> simp [positionFor, Position.ofMember, htype]
      change Gathers s _ start stop d (Node.kept s (positionFor owner kind) _) _
      rw [position, hn.kept_type htype]
      exact first.append (body.mono bad le_rfl le_rfl)
    · rw [if_neg htype]
      cases owner with
      | none =>
        have position : positionFor none kind = .outside := by simp [positionFor, htype]
        change Gathers s _ start stop d (Node.kept s (positionFor none kind) _) _
        rw [position, Node.kept_outside]
        exact .nothing hne.le
      | some id =>
        dsimp only
        split_ifs with hmore
        · have members := collectAll_gathers s children (some id) d start stop shaped inOrder ho.children
          obtain rfl : kind = .enumBodyDeclarations := by simpa using hmore
          change Gathers s _ start stop d (Node.kept s .members _) _
          rw [Node.kept_members]
          exact members.mono bad le_rfl le_rfl
        · exact addMember_gathers hn ho hne (by simpa [Node.kind] using htype) (by simpa [Node.kind] using hmore)
termination_by structural n => n

theorem collectBody_gathers (s : Source) : ∀ (ns : List Node) (owner : TypeId) (d : Declarations) (lo hi : Nat),
    (∀ n ∈ ns, n.Shaped) → (∀ n ∈ ns, n.InOrder) → Between lo ns hi →
      Gathers s (∃ n ∈ ns, n.Faulty s) lo hi d ((ns.find? (·.role == some .body)).toList.flatMap (·.kept s .members))
        (collectBody s owner ns d)
  | [], owner, d, lo, hi, _, _, hb => .nothing hb
  | .mk kind role start stop children :: rest, owner, d, lo, hi, hn, ho, hb => by
    obtain ⟨hlo, hne, hrest⟩ := hb
    have shaped := hn _ List.mem_cons_self
    have inOrder := ho _ List.mem_cons_self
    rw [collectBody.eq_def]
    dsimp only
    split_ifs with hr
    · have members := collectAll_gathers s children (some owner) d start stop (fun c hc => shaped.child hc)
        (fun c hc => inOrder.child hc) inOrder.children
      rw [List.find?_cons_of_pos (by simpa [Node.role] using hr), Option.toList_some, List.flatMap_singleton, Node.kept_members]
      exact members.mono (fun ⟨c, hc, hf⟩ => ⟨_, List.mem_cons_self, .inside hc hf⟩) hlo hrest.le
    · have others := collectBody_gathers s rest owner d stop hi (fun m hm => hn m (List.mem_cons_of_mem _ hm))
        (fun m hm => ho m (List.mem_cons_of_mem _ hm)) hrest
      rw [List.find?_cons_of_neg (by simpa [Node.role] using hr)]
      exact others.mono (fun ⟨c, hc, hf⟩ => ⟨c, List.mem_cons_of_mem _ hc, hf⟩) (hlo.trans hne.le) le_rfl
termination_by structural ns => ns

theorem collectAll_gathers (s : Source) : ∀ (ns : List Node) (owner : Option TypeId) (d : Declarations) (lo hi : Nat),
    (∀ n ∈ ns, n.Shaped) → (∀ n ∈ ns, n.InOrder) → Between lo ns hi →
      Gathers s (∃ n ∈ ns, n.Faulty s) lo hi d (ns.flatMap fun n => n.kept s (positionFor owner n.kind))
        (collectAll s owner ns d)
  | [], owner, d, lo, hi, _, _, hb => .nothing hb
  | n :: ns, owner, d, lo, hi, hn, ho, hb => by
    obtain ⟨hlo, hne, hrest⟩ := hb
    have first := collect_gathers s n owner d (hn n List.mem_cons_self) (ho n List.mem_cons_self) hne
    have others := collectAll_gathers s ns owner (collect s owner n d) n.stop hi
      (fun m hm => hn m (List.mem_cons_of_mem _ hm)) (fun m hm => ho m (List.mem_cons_of_mem _ hm)) hrest
    rw [collectAll, List.flatMap_cons]
    refine (first.mono (fun hf => ⟨n, List.mem_cons_self, hf⟩) hlo le_rfl).append (others.mono ?_ le_rfl le_rfl)
    exact fun ⟨m, hm, hf⟩ => ⟨m, List.mem_cons_of_mem _ hm, hf⟩
termination_by structural ns => ns

end

/-! ## Files -/

/-- links change neither bodies nor methods, and of the fields only the types -/
theorem link_gathers {d' : Declarations} {lo hi : Nat} {w : List Written} (hd : d.fields = #[])
    (h : Gathers s bad lo hi d w d') : Gathers s bad lo hi d w d'.link := by
  obtain ⟨bs, hc, hw, hg⟩ := h
  obtain ⟨vs, hvs, hv⟩ := hc.fields
  have fields : ∀ v ∈ d'.fields.toList, v.kind = .field ∧ v.initializer = none := by
    rw [hvs, hd]
    simpa using hv
  have linked (i : Nat) : d'.link.fields.toList[i]? = d'.fields.toList[i]?.map fun v =>
      { v with declaredType := d'.fieldTypes[i]?.bind d'.names.resolve? } := by
    simp [link]
  have awaits (b : Body) (start : Nat) (hb : b.Awaits d'.methods.toList d'.fields.toList start) :
      b.Awaits d'.link.methods.toList d'.link.fields.toList start := by
    cases b with
    | method id n => exact hb
    | field id owner value =>
      obtain ⟨v, hv, hf⟩ := hb
      exact ⟨_, (linked _).trans (congrArg _ hv), hf⟩
    | block owner n => exact hb
  -- a file starts without fields, so all fields of `d'` are new ones
  refine ⟨bs, { hc with fields := ⟨d'.link.fields.toList, by simp [hd], fun v hv => ?_⟩, awaits := ?_ }, hw, hg⟩
  · obtain ⟨i, hi⟩ := List.mem_iff_getElem?.1 hv
    rw [linked] at hi
    obtain ⟨v', hv', rfl⟩ := Option.map_eq_some_iff.1 hi
    exact fields v' (List.mem_of_getElem? hv')
  · exact fun b hb => awaits b.1 b.2 (hc.awaits b hb)

/-- **The bodies of a file** hold together what is kept of it. -/
theorem ofFile_gathers {root : Node} (hn : root.Shaped) (ho : root.InOrder) (names : NameTable) :
    Gathers s (root.Faulty s) root.start root.stop (ofNames names) (root.kept s .file) (ofFile s names root) := by
  have all := collectAll_gathers s root.children none (ofNames names) root.start root.stop (fun c hc => hn.child hc)
    (fun c hc => ho.child hc) ho.children
  have kept : root.kept s .file = root.children.flatMap fun c => c.kept s (positionFor none c.kind) :=
    Node.kept_list rfl s root
  rw [kept]
  exact link_gathers rfl (all.mono (fun ⟨c, hc, hf⟩ => .inside hc hf) le_rfl le_rfl)

/-- no two bodies of a file are of one method or field -/
theorem ofFile_apart {root : Node} (hn : root.Shaped) (ho : root.InOrder) (names : NameTable) :
    (ofFile s names root).bodies.toList.Pairwise Body.Apart := by
  obtain ⟨bs, hc, -, -⟩ := ofFile_gathers (s := s) hn ho names
  have bodies : (ofFile s names root).bodies.toList = bs.map (·.1) := hc.bodies
  rw [bodies]
  exact List.pairwise_map.2 hc.apart

theorem ofFile_shaped {root : Node} (hn : root.Shaped) (ho : root.InOrder) (names : NameTable) :
    ∀ b ∈ (ofFile s names root).bodies.toList, b.node.Shaped := by
  obtain ⟨bs, hc, -, hg⟩ := ofFile_gathers (s := s) hn ho names
  have bodies : (ofFile s names root).bodies.toList = bs.map (·.1) := hc.bodies
  rw [bodies]
  intro b hb
  obtain ⟨x, hx, rfl⟩ := List.mem_map.1 hb
  exact Body.Shaped.node (hg x hx).1

end Declarations

end CallLint
