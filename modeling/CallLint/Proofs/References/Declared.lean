/-
The ids in the declarations of a file. Ids are handed out while the lists of types, fields and methods grow, and are kept
in the members of types, in what encloses a type and in the bodies that are still to be lowered. `Declarations.Sound`
says that each of them belongs to a declaration that is there and is what the id stands for; each step of the collection
keeps that (`Sound.keptBySteps`), and so do the links between types (`Sound.link`).

From sound declarations no chain of types leads to an id without a type, and what is found by name has that name.
-/
import CallLint.Proofs.References.Collected
import CallLint.Proofs.Rearranged.Linked

namespace CallLint

/-- the id is that of a field with the name -/
def FieldNamed (vs : Array VariableDecl) (name : String) (id : VariableId) : Prop :=
  ∃ v, vs[id.index]? = some v ∧ v.kind = .field ∧ v.name = name

/-- the id is that of a method with the name that takes so many arguments -/
def MethodFor (ms : Array MethodDecl) (name : String) (arguments : Nat) (id : MethodId) : Prop :=
  ∃ m, ms[id.index]? = some m ∧ m.name = name ∧ m.acceptsArity arguments = true

/-- every id in the declarations is that of a declaration, and of the right one -/
structure Declarations.Sound (d : Declarations) : Prop where
  members : d.members.size = d.types.size
  fieldTypes : d.fieldTypes.size = d.fields.size
  enclosing : ∀ (i : Nat) (t : TypeDecl), d.types[i]? = some t → ∀ e, t.enclosing = some e → e.index < i
  superclass : ∀ (i : Nat) (t : TypeDecl), d.types[i]? = some t → ∀ e, t.superclassId = some e →
    e.index ≠ i ∧ ∃ t', d.typeAt? e = some t' ∧ t.superclass = some t'.binaryName
  fieldMembers : ∀ ms ∈ d.members, ∀ p ∈ ms.fields, FieldNamed d.fields p.1 p.2
  methodMembers : ∀ ms ∈ d.members, ∀ id ∈ ms.methods, id.index < d.methods.size
  withoutInitializer : ∀ v ∈ d.fields, v.initializer = none
  methods : ∀ m ∈ d.methods, m.owner.index < d.types.size ∧ m.body = none
  bodies : ∀ b ∈ d.bodies, b.InRange d

theorem getElem?_push_of_some {α : Type} {xs : Array α} {i : Nat} {x : α} (h : xs[i]? = some x) (y : α) :
    (xs.push y)[i]? = some x := by
  rw [Array.getElem?_push, if_neg (Array.getElem?_eq_some_iff.1 h).1.ne, h]

theorem FieldNamed.push {vs : Array VariableDecl} {name : String} {id : VariableId} (h : FieldNamed vs name id)
    (v : VariableDecl) : FieldNamed (vs.push v) name id := by
  obtain ⟨u, hu, hkind⟩ := h
  exact ⟨u, getElem?_push_of_some hu v, hkind⟩

/-- what holds of all items holds of all items after one of them is modified -/
theorem forall_mem_modify {α : Type} {p q : α → Prop} {xs : Array α} {i : Nat} {f : α → α} (h : ∀ x ∈ xs, p x)
    (hp : ∀ x, p x → q x) (hf : ∀ x, p x → q (f x)) : ∀ x ∈ xs.modify i f, q x := by
  intro x hx
  obtain ⟨j, hj⟩ := Array.mem_iff_getElem?.1 hx
  rw [Array.getElem?_modify] at hj
  split at hj
  · obtain ⟨y, hy, rfl⟩ := Option.map_eq_some_iff.1 hj
    exact hf y (h y (Array.mem_of_getElem? hy))
  · exact hp x (h x (Array.mem_of_getElem? hj))

namespace Declarations

variable {d : Declarations}

theorem ofNames_sound (names : NameTable) : (ofNames names).Sound := by
  constructor <;> simp [ofNames]

/-! ## Steps of the collection -/

theorem Sound.addBody (h : d.Sound) {b : Body} (hb : b.InRange d) : (d.addBody b).Sound := by
  refine { h with bodies := fun c hc => ?_ }
  rcases Array.mem_push.1 hc with hc | rfl
  · exact h.bodies c hc
  · exact hb

theorem Sound.addField (h : d.Sound) (owner : TypeId) (name type : String) (isFinal : Bool) (span : Span) :
    (d.addField owner name type isFinal span).Sound := by
  let v : VariableDecl := ⟨name, .field, none, isFinal, none, span⟩
  have new : FieldNamed (d.fields.push v) name ⟨d.fields.size⟩ := ⟨v, by simp, rfl, rfl⟩
  have members : (d.addField owner name type isFinal span).members =
      d.members.modify owner.index fun m => { m with fields := (name, ⟨d.fields.size⟩) :: m.fields } := rfl
  have old : ∀ ms : Members, (∀ p ∈ ms.fields, FieldNamed d.fields p.1 p.2) →
      ∀ p ∈ ms.fields, FieldNamed (d.fields.push v) p.1 p.2 := fun ms hms p hp => (hms p hp).push v
  constructor
  case members => simpa [Declarations.addField] using h.members
  case fieldTypes => simp [Declarations.addField, h.fieldTypes]
  case enclosing => exact h.enclosing
  case superclass => exact h.superclass
  case fieldMembers =>
    rw [members]
    refine forall_mem_modify h.fieldMembers old fun ms hms p hp => ?_
    rcases List.mem_cons.1 hp with rfl | hp
    · exact new
    · exact old ms hms p hp
  case methodMembers =>
    rw [members]
    exact forall_mem_modify h.methodMembers (fun _ => id) fun _ => id
  case withoutInitializer =>
    intro u hu
    rcases Array.mem_push.1 hu with hu | rfl
    · exact h.withoutInitializer u hu
    · rfl
  case methods => exact h.methods
  case bodies =>
    intro b hb
    exact (h.bodies b hb).mono le_rfl le_rfl (by simp [Declarations.addField])

theorem Sound.pushMethod (h : d.Sound) {m : MethodDecl} (ho : m.owner.index < d.types.size) (hb : m.body = none) :
    (d.pushMethod m).Sound := by
  have more : d.methods.size ≤ (d.methods.push m).size := by simp
  have members : (d.pushMethod m).members =
      d.members.modify m.owner.index fun ms => { ms with methods := ms.methods ++ [⟨d.methods.size⟩] } := rfl
  constructor
  case members => simpa [Declarations.pushMethod] using h.members
  case fieldTypes => exact h.fieldTypes
  case enclosing => exact h.enclosing
  case superclass => exact h.superclass
  case fieldMembers =>
    rw [members]
    exact forall_mem_modify h.fieldMembers (fun _ => id) fun _ => id
  case methodMembers =>
    rw [members]
    refine forall_mem_modify h.methodMembers (fun ms hms i hi => (hms i hi).trans_le more) fun ms hms i hi => ?_
    rcases List.mem_append.1 hi with hi | hi
    · exact (hms i hi).trans_le more
    · obtain rfl := List.mem_singleton.1 hi
      simp [Declarations.pushMethod]
  case withoutInitializer => exact h.withoutInitializer
  case methods =>
    intro m' hm'
    rcases Array.mem_push.1 hm' with hm' | rfl
    · exact h.methods m' hm'
    · exact ⟨ho, hb⟩
  case bodies =>
    intro b hb
    exact (h.bodies b hb).mono le_rfl more le_rfl

theorem Sound.pushType (h : d.Sound) {t : TypeDecl} (he : ∀ e, t.enclosing = some e → e.index < d.types.size)
    (hs : t.superclassId = none) : (d.pushType t).Sound := by
  have more : d.types.size ≤ (d.types.push t).size := by simp
  have type {i : Nat} {u : TypeDecl} (hu : (d.types.push t)[i]? = some u) : i = d.types.size ∧ u = t ∨ d.types[i]? = some u := by
    rw [Array.getElem?_push] at hu
    split at hu
    · rename_i hi
      exact .inl ⟨hi, (Option.some.inj hu).symm⟩
    · exact .inr hu
  constructor
  case members => simp [Declarations.pushType, h.members]
  case fieldTypes => exact h.fieldTypes
  case enclosing =>
    intro i u hu e hue
    rcases type hu with ⟨rfl, rfl⟩ | hu
    · exact he e hue
    · exact h.enclosing i u hu e hue
  case superclass =>
    intro i u hu e hue
    rcases type hu with ⟨rfl, rfl⟩ | hu
    · rw [hs] at hue
      cases hue
    · obtain ⟨hne, u', hu', hname⟩ := h.superclass i u hu e hue
      exact ⟨hne, u', getElem?_push_of_some hu' t, hname⟩
  case fieldMembers =>
    intro ms hms
    rcases Array.mem_push.1 hms with hms | rfl
    · exact h.fieldMembers ms hms
    · simp
  case methodMembers =>
    intro ms hms
    rcases Array.mem_push.1 hms with hms | rfl
    · exact h.methodMembers ms hms
    · simp
  case withoutInitializer => exact h.withoutInitializer
  case methods =>
    intro m hm
    obtain ⟨howner, hbody⟩ := h.methods m hm
    exact ⟨howner.trans_le more, hbody⟩
  case bodies =>
    intro b hb
    exact (h.bodies b hb).mono more le_rfl le_rfl

theorem Sound.keptBySteps (s : Source) : KeptBySteps s (fun _ => True) Sound where
  child _ _ := trivial
  body h _ hb := h.addBody hb
  field h _ _ name isFinal span := h.addField _ name _ isFinal span
  method h hm ho := by
    cases hm
    exact h.pushMethod ho rfl
  type h _ ho _ _ := h.pushType ho rfl

/-! ## Links -/

theorem linkType_enclosing (d : Declarations) (i : Nat) (t : TypeDecl) : (d.linkType i t).enclosing = t.enclosing := by
  rw [linkType]
  cases t.superclass <;> rfl

theorem typeAt?_of_typeNamed? {name : String} {id : TypeId} (h : d.typeNamed? name = some id) :
    ∃ t, d.typeAt? id = some t ∧ t.binaryName = name := by
  obtain ⟨i, hi, rfl⟩ := Option.map_eq_some_iff.1 h
  obtain ⟨hlt, hname, -⟩ := Array.findIdx?_eq_some_iff_getElem.1 hi
  exact ⟨d.types[i], Array.getElem?_eq_getElem hlt, by simpa using hname⟩

/-- a linked superclass is another type, with the name that the superclass resolves to -/
theorem superclass_linkType (h : d.Sound) {i : Nat} {t : TypeDecl} (ht : d.types[i]? = some t) {e : TypeId}
    (he : (d.linkType i t).superclassId = some e) :
    e.index ≠ i ∧ ∃ t', d.link.typeAt? e = some t' ∧ (d.linkType i t).superclass = some t'.binaryName := by
  rw [linkType] at he ⊢
  cases hs : t.superclass with
  | none =>
    rw [hs] at he
    obtain ⟨-, t', -, hsome⟩ := h.superclass i t ht e he
    rw [hs] at hsome
    cases hsome
  | some written =>
    rw [hs] at he
    obtain ⟨hnamed, hne⟩ := Option.filter_eq_some_iff.1 he
    obtain ⟨t', ht', hname⟩ := typeAt?_of_typeNamed? hnamed
    refine ⟨by simpa using hne, d.linkType e.index t', typeAt?_link_eq_some.2 ⟨t', ht', rfl⟩, ?_⟩
    rw [linkType_binaryName, hname]

theorem Sound.link (h : d.Sound) : d.link.Sound := by
  have types {i : Nat} {u : TypeDecl} (hu : d.link.types[i]? = some u) : ∃ t, d.types[i]? = some t ∧ d.linkType i t = u :=
    (@typeAt?_link_eq_some d ⟨i⟩ u).1 hu
  have fields (i : Nat) : d.link.fields[i]? = d.fields[i]?.map fun v =>
      { v with declaredType := d.fieldTypes[i]?.bind d.names.resolve? } := Array.getElem?_mapIdx
  have size : d.link.types.size = d.types.size := Array.size_mapIdx
  constructor
  case members =>
    rw [size]
    exact h.members
  case fieldTypes => exact h.fieldTypes.trans Array.size_mapIdx.symm
  case enclosing =>
    intro i u hu e he
    obtain ⟨t, ht, rfl⟩ := types hu
    rw [linkType_enclosing] at he
    exact h.enclosing i t ht e he
  case superclass =>
    intro i u hu e he
    obtain ⟨t, ht, rfl⟩ := types hu
    exact superclass_linkType h ht he
  case fieldMembers =>
    intro ms hms p hp
    obtain ⟨v, hv, hkind⟩ := h.fieldMembers ms hms p hp
    exact ⟨_, (fields p.2.index).trans (congrArg _ hv), hkind⟩
  case methodMembers => exact h.methodMembers
  case withoutInitializer =>
    intro v hv
    obtain ⟨i, hi⟩ := Array.mem_iff_getElem?.1 hv
    rw [fields] at hi
    obtain ⟨u, hu, rfl⟩ := Option.map_eq_some_iff.1 hi
    exact h.withoutInitializer u (Array.mem_of_getElem? hu)
  case methods =>
    intro m hm
    rw [size]
    exact h.methods m hm
  case bodies =>
    intro b hb
    exact (h.bodies b hb).mono size.ge le_rfl Array.size_mapIdx.ge

/-- **All ids in the declarations of a file are sound.** -/
theorem ofFile_sound (s : Source) (names : NameTable) (root : Node) : (ofFile s names root).Sound :=
  Sound.link ((Sound.keptBySteps s).collected (fun _ _ => trivial) (ofNames_sound names))

/-! ## Chains of types -/

theorem exists_typeAt? {id : TypeId} (h : id.index < d.types.size) : ∃ t, d.typeAt? id = some t :=
  ⟨d.types[id.index], Array.getElem?_eq_getElem h⟩

/-- each id on a chain of so many steps is that of a type -/
def Follows (d : Declarations) (next : TypeDecl → Option TypeId) : Nat → TypeId → Prop
  | 0, _ => True
  | steps + 1, id => ∃ t, d.typeAt? id = some t ∧ ∀ e, next t = some e → d.Follows next steps e

theorem follows_of_closed {next : TypeDecl → Option TypeId}
    (hnext : ∀ id t, d.typeAt? id = some t → ∀ e, next t = some e → e.index < d.types.size) (steps : Nat) (id : TypeId)
    (hid : id.index < d.types.size) : d.Follows next steps id := by
  induction steps generalizing id with
  | zero => trivial
  | succ steps ih =>
    obtain ⟨t, ht⟩ := exists_typeAt? hid
    exact ⟨t, ht, fun e he => ih e (hnext id t ht e he)⟩

theorem Sound.follows_enclosing (h : d.Sound) (steps : Nat) (id : TypeId) (hid : id.index < d.types.size) :
    d.Follows (·.enclosing) steps id :=
  follows_of_closed (fun id t ht e he => (h.enclosing id.index t ht e he).trans (Array.getElem?_eq_some_iff.1 ht).1)
    steps id hid

/-- also where types inherit from each other in a circle -/
theorem Sound.follows_superclass (h : d.Sound) (steps : Nat) (id : TypeId) (hid : id.index < d.types.size) :
    d.Follows (·.superclassId) steps id := by
  refine follows_of_closed (fun id t ht e he => ?_) steps id hid
  obtain ⟨-, t', ht', -⟩ := h.superclass id.index t ht e he
  exact (Array.getElem?_eq_some_iff.1 ht').1

/-- enough steps lead to a type with no other around it, since ids descend on the way -/
theorem Sound.follow_enclosing (h : d.Sound) (steps : Nat) (id : TypeId) (hs : id.index < steps)
    (hid : id.index < d.types.size) :
    ∃ inner outer t, d.follow (·.enclosing) steps id = inner ++ [outer] ∧ d.typeAt? outer = some t ∧ t.enclosing = none := by
  induction steps generalizing id with
  | zero => omega
  | succ steps ih =>
    obtain ⟨t, ht⟩ := exists_typeAt? hid
    rw [follow, ht]
    dsimp only
    cases he : t.enclosing with
    | none => exact ⟨[], id, t, rfl, ht, he⟩
    | some e =>
      have before : e.index < id.index := h.enclosing id.index t ht e he
      obtain ⟨inner, outer, u, hchain, hu⟩ := ih e (by omega) (by omega)
      refine ⟨id :: inner, outer, u, ?_, hu⟩
      dsimp only
      rw [hchain, List.cons_append]

/-- **The chain of enclosing types ends** at a type with no other around it; it is not cut off. -/
theorem Sound.enclosingChain_ends (h : d.Sound) {id : TypeId} (hid : id.index < d.types.size) :
    ∃ inner outer t, d.enclosingChain id = inner ++ [outer] ∧ d.typeAt? outer = some t ∧ t.enclosing = none :=
  h.follow_enclosing d.types.size id hid hid

/-! ## What is found by name -/

theorem mem_of_lookup {α : Type} {l : List (String × α)} {name : String} {a : α} (h : l.lookup name = some a) :
    (name, a) ∈ l := by
  obtain ⟨l₁, l₂, rfl, -⟩ := List.lookup_eq_some_iff.1 h
  simp

theorem Sound.fieldIn? (h : d.Sound) {id : TypeId} {name : String} {field : VariableId}
    (hf : d.fieldIn? id name = some field) : FieldNamed d.fields name field := by
  obtain ⟨t, -, ht⟩ := List.exists_of_findSome?_eq_some hf
  rw [membersOf] at ht
  cases hms : d.members[t.index]? with
  | none => simp [hms] at ht
  | some ms =>
    rw [hms] at ht
    exact h.fieldMembers ms (Array.mem_of_getElem? hms) _ (mem_of_lookup ht)

variable {t : TypeId} {name : String} {arguments : Nat} {id : MethodId}

theorem ownMethod?_for (h : d.ownMethod? t name arguments = some id) : MethodFor d.methods name arguments id := by
  have accepted := List.find?_some h
  cases hm : d.methods[id.index]? with
  | none => simp [hm] at accepted
  | some m =>
    simp only [hm, Bool.and_eq_true, beq_iff_eq] at accepted
    exact ⟨m, hm, accepted⟩

theorem methodIn?_for {owner : TypeId} (h : d.methodIn? t name arguments = some (owner, id)) :
    MethodFor d.methods name arguments id := by
  obtain ⟨u, -, hu⟩ := List.exists_of_findSome?_eq_some h
  obtain ⟨m, hm, heq⟩ := Option.map_eq_some_iff.1 hu
  cases heq
  exact ownMethod?_for hm

end Declarations

end CallLint
