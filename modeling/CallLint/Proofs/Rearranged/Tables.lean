/-
Declarations with the same outline. When no two types, fields of a type or methods that could take one call go by one
name, an item of the outline stands for one id, so ids of both declarations correspond by their items. Lookups by name
then find corresponding ids, in whatever order the tables are.
-/
import CallLint.Proofs.Correspondence.Bodies
import CallLint.Proofs.Rearranged.Outline

namespace CallLint

/-- no name is declared twice where it could mean both -/
structure Declarations.DistinctNames (d : Declarations) : Prop where
  names : (d.types.toList.map (·.name)).Nodup
  fields : ∀ id, ((d.membersOf id).fields.map (·.1)).Nodup
  methods : ∀ id, (d.membersOf id).methods.Pairwise fun i j => ∀ m n, d.methods[i.index]? = some m →
    d.methods[j.index]? = some n → m.name = n.name → ∀ count, ¬(m.acceptsArity count ∧ n.acceptsArity count)

/-- as `DistinctNames`, and no nested type has the binary name of another type -/
structure Declarations.Distinct (d : Declarations) : Prop extends d.DistinctNames where
  binaryNames : (d.types.toList.map (·.binaryName)).Nodup

/-- the methods cannot take one call -/
def MethodItem.Apart (x y : MethodItem) : Prop :=
  x.owner = y.owner → x.decl.name = y.decl.name → ∀ count, ¬(x.decl.acceptsArity count ∧ y.decl.acceptsArity count)

theorem MethodItem.Apart.symm {x y : MethodItem} (h : x.Apart y) : y.Apart x :=
  fun ho hn count hc => h ho.symm hn.symm count hc.symm

/-- the bodies are of different declarations -/
def BodyItem.Apart : BodyItem → BodyItem → Prop
  | .method m _, .method m' _ => m ≠ m'
  | .field f _, .field f' _ => f ≠ f'
  | _, _ => True

theorem BodyItem.Apart.symm {x y : BodyItem} (h : x.Apart y) : y.Apart x := by
  cases x <;> cases y <;> first | exact Ne.symm h | trivial

/-- a method takes as many arguments as it has parameters -/
theorem MethodDecl.acceptsArity_parameterCount (m : MethodDecl) : m.acceptsArity m.parameterCount := by
  rw [acceptsArity]
  split_ifs <;> simp

namespace Declarations

variable {d d' : Declarations} {fs gs : List OwnedField}

/-! ## Items of distinct declarations -/

theorem typeAt?_iff {id : TypeId} {t : TypeDecl} : d.typeAt? id = some t ↔ d.types.toList[id.index]? = some t := by
  rw [typeAt?, Array.getElem?_toList]

/-- types of one name are the same -/
theorem Distinct.typeId_eq (h : (d.types.toList.map (·.name)).Nodup) {a b : TypeId} (ha : a.index < d.types.size)
    (hb : b.index < d.types.size) (hab : d.nameOf a = d.nameOf b) : a = b := by
  have entry {c : TypeId} (hc : c.index < d.types.size) : (d.types.toList.map (·.name))[c.index]? = some (d.nameOf c) := by
    rw [nameOf, typeAt?, List.getElem?_map, Array.getElem?_toList, Array.getElem?_eq_getElem hc]
    rfl
  exact typeId_ext.1 (getElem?_inj_of_nodup h (entry ha) (hab ▸ entry hb))

/-- the items of declarations say which is which -/
structure Told (d : Declarations) (fs : List OwnedField) : Prop where
  coherent : d.Coherent fs
  names : (d.types.toList.map (·.name)).Nodup
  binaryNames : (d.types.toList.map (·.binaryName)).Nodup
  fields : ((fs.map d.fieldItem).map fun x => (x.owner, x.decl.name)).Nodup
  methods : (d.methods.toList.map d.methodItem).Pairwise MethodItem.Apart

theorem Distinct.told (h : d.Distinct) (hc : d.Coherent fs) : d.Told fs where
  coherent := hc
  names := h.names
  binaryNames := h.binaryNames
  fields := by
    rw [List.map_map, List.Nodup, List.pairwise_map, List.pairwise_iff_getElem]
    intro i j hi hj hij heq
    have owner : fs[i].owner = fs[j].owner :=
      Distinct.typeId_eq h.names (hc.fieldOwner _ (by simp)) (hc.fieldOwner _ (by simp)) (congrArg Prod.fst heq)
    have name : fs[i].decl.name = fs[j].decl.name := congrArg Prod.snd heq
    have left : (fs[i].decl.name, VariableId.mk i) ∈ (d.membersOf fs[i].owner).fields :=
      (hc.fieldMembers _ _ ⟨i⟩).2 ⟨fs[i], List.getElem?_eq_getElem hi, rfl, rfl⟩
    have right : (fs[j].decl.name, VariableId.mk j) ∈ (d.membersOf fs[i].owner).fields :=
      (hc.fieldMembers _ _ ⟨j⟩).2 ⟨fs[j], List.getElem?_eq_getElem hj, owner.symm, rfl⟩
    have same := List.inj_on_of_nodup_map (h.fields fs[i].owner) left right name
    exact hij.ne (congrArg (fun x : String × VariableId => x.2.index) same)
  methods := by
    rw [List.pairwise_map, List.pairwise_iff_getElem]
    intro i j hi hj hij howner hname count hcount
    have owner : d.methods.toList[i].owner = d.methods.toList[j].owner :=
      Distinct.typeId_eq h.names (hc.methodOwner _ (by simp)) (hc.methodOwner _ (by simp)) howner
    have there (k : Nat) (hk : k < d.methods.toList.length) :
        MethodId.mk k ∈ (d.membersOf d.methods.toList[k].owner).methods :=
      (hc.methodMembers _ ⟨k⟩).2 ⟨d.methods.toList[k], by rw [← Array.getElem?_toList, List.getElem?_eq_getElem hk], rfl⟩
    let clash (a b : MethodId) : Prop := ∀ m n, d.methods[a.index]? = some m → d.methods[b.index]? = some n →
      m.name = n.name → ∀ count, ¬(m.acceptsArity count ∧ n.acceptsArity count)
    have symm : Std.Symm clash := ⟨fun a b hab m n hm hn hmn count hc => hab n m hn hm hmn.symm count hc.symm⟩
    have apart : (d.membersOf d.methods.toList[i].owner).methods.Pairwise clash := h.methods _
    refine apart.forall (there i hi) (owner ▸ there j hj) (fun hne => hij.ne (congrArg MethodId.index hne))
      d.methods.toList[i] d.methods.toList[j] ?_ ?_ hname count hcount
    · rw [← Array.getElem?_toList, List.getElem?_eq_getElem hi]
    · rw [← Array.getElem?_toList, List.getElem?_eq_getElem hj]

theorem methodItem_entry {id : MethodId} (h : id.index < d.methods.size) :
    (d.methods.toList.map d.methodItem)[id.index]? = some (d.methodItem (d.methods[id.index]?.getD default)) := by
  rw [List.getElem?_map, Array.getElem?_toList, Array.getElem?_eq_getElem h]
  rfl

theorem fieldItem_entry {id : VariableId} {f : OwnedField} (h : fs[id.index]? = some f) :
    (fs.map d.fieldItem)[id.index]? = some (d.fieldItem (fs[id.index]?.getD default)) := by
  rw [List.getElem?_map, h]
  rfl

/-- both declarations have the same items, and names that are declared elsewhere mean the same -/
structure SameItems (d d' : Declarations) (fs gs : List OwnedField) : Prop where
  left : d.Told fs
  right : d'.Told gs
  types : (d.types.toList.map d.typeItem).Perm (d'.types.toList.map d'.typeItem)
  fields : (fs.map d.fieldItem).Perm (gs.map d'.fieldItem)
  methods : (d.methods.toList.map d.methodItem).Perm (d'.methods.toList.map d'.methodItem)
  bodies : (d.bodies.toList.map (d.bodyItem fs)).Perm (d'.bodies.toList.map (d'.bodyItem gs))
  table : d'.names = { d.names with declared := d'.names.declared }

/-- a second file with the same outline is as distinct as the first -/
theorem Told.sameItems (h : d.Told fs) (hc : d'.Coherent gs) (ho : d.outline fs = d'.outline gs)
    (hn : d'.names = { d.names with declared := d'.names.declared }) : SameItems d d' fs gs := by
  obtain ⟨types, fields, methods, bodies⟩ := Prod.ext_iff.1 ho |>.imp_right fun h =>
    (Prod.ext_iff.1 h).imp_right fun h => Prod.ext_iff.1 h
  have types := Multiset.coe_eq_coe.1 types
  have fields := Multiset.coe_eq_coe.1 fields
  have methods := Multiset.coe_eq_coe.1 methods
  have decls {β : Type} (f : TypeDecl → β) (hf : ∀ t : TypeDecl, f { t with enclosing := none } = f t)
      (hd : (d.types.toList.map f).Nodup) : (d'.types.toList.map f).Nodup := by
    have perm := types.map fun x => f x.decl
    rw [List.map_map, List.map_map] at perm
    have same (e : Declarations) : e.types.toList.map ((fun x => f x.decl) ∘ e.typeItem) = e.types.toList.map f :=
      List.map_congr_left fun t _ => hf t
    rw [same, same] at perm
    exact perm.nodup_iff.1 hd
  refine ⟨h, ⟨hc, decls _ (fun _ => rfl) h.names, decls _ (fun _ => rfl) h.binaryNames, ?_, ?_⟩, types, fields, methods,
    Multiset.coe_eq_coe.1 bodies, hn⟩
  · exact (fields.map _).nodup_iff.1 h.fields
  · exact (methods.pairwise_iff MethodItem.Apart.symm).1 h.methods

namespace SameItems

variable (h : SameItems d d' fs gs)
include h

theorem symm : SameItems d' d gs fs :=
  ⟨h.right, h.left, h.types.symm, h.fields.symm, h.methods.symm, h.bodies.symm, by rw [h.table]⟩

end SameItems

/-- ids correspond when their items are the same, and spans only to themselves -/
def correspondence (d d' : Declarations) (fs gs : List OwnedField) : Correspondence where
  types := SameEntry TypeId.index (d.types.toList.map d.typeItem) (d'.types.toList.map d'.typeItem)
  methods := SameEntry MethodId.index (d.methods.toList.map d.methodItem) (d'.methods.toList.map d'.methodItem)
  vars := SameEntry VariableId.index (fs.map d.fieldItem) (gs.map d'.fieldItem)
  spans := (· = ·)

theorem Told.typeItems_nodup (h : d.Told fs) : (d.types.toList.map d.typeItem).Nodup := by
  refine List.Nodup.of_map (fun x : TypeItem => x.decl.name) ?_
  rw [List.map_map]
  exact h.names

theorem Told.fieldItems_nodup (h : d.Told fs) : (fs.map d.fieldItem).Nodup :=
  h.fields.of_map

theorem Told.methodItems_nodup (h : d.Told fs) : (d.methods.toList.map d.methodItem).Nodup := by
  refine h.methods.imp fun {x y} hxy heq => ?_
  subst heq
  exact hxy rfl rfl x.decl.parameterCount ⟨x.decl.acceptsArity_parameterCount, x.decl.acceptsArity_parameterCount⟩

/-- a type has one field of a name -/
theorem Told.field_unique (h : d.Told fs) (id : TypeId) (name : String) (a b : VariableId)
    (ha : (name, a) ∈ (d.membersOf id).fields) (hb : (name, b) ∈ (d.membersOf id).fields) : a = b := by
  obtain ⟨f, hf, hfo, hfn⟩ := (h.coherent.fieldMembers id name a).1 ha
  obtain ⟨g, hg, hgo, hgn⟩ := (h.coherent.fieldMembers id name b).1 hb
  have entry {c : VariableId} {k : OwnedField} (hk : fs[c.index]? = some k) (ho : k.owner = id) (hn : k.decl.name = name) :
      ((fs.map d.fieldItem).map fun x => (x.owner, x.decl.name))[c.index]? = some (d.nameOf id, name) := by
    rw [List.getElem?_map, List.getElem?_map, hk, ← ho, ← hn]
    rfl
  have same := getElem?_inj_of_nodup h.fields (entry hf hfo hfn) (entry hg hgo hgn)
  cases a
  cases b
  simpa using same

/-- the method that takes a call of a name -/
def takes (d : Declarations) (name : String) (arguments : Nat) (id : MethodId) : Bool :=
  match d.methods[id.index]? with
  | some method => method.name == name && method.acceptsArity arguments
  | none => false

theorem takes_iff {name : String} {arguments : Nat} {id : MethodId} :
    d.takes name arguments id = true ↔
      ∃ m, d.methods[id.index]? = some m ∧ m.name = name ∧ m.acceptsArity arguments = true := by
  rw [takes]
  cases d.methods[id.index]? <;> simp

/-- a type has one method that takes a call -/
theorem Told.method_unique (h : d.Told fs) {id : TypeId} {name : String} {arguments : Nat} {a b : MethodId}
    (ha : a ∈ (d.membersOf id).methods) (hb : b ∈ (d.membersOf id).methods) (hta : d.takes name arguments a = true)
    (htb : d.takes name arguments b = true) : a = b := by
  obtain ⟨m, hm, hmo⟩ := (h.coherent.methodMembers id a).1 ha
  obtain ⟨n, hn, hno⟩ := (h.coherent.methodMembers id b).1 hb
  obtain ⟨m', hm', hmn, hma⟩ := takes_iff.1 hta
  obtain ⟨n', hn', hnn, hna⟩ := takes_iff.1 htb
  obtain rfl : m = m' := by simpa [hm] using hm'
  obtain rfl : n = n' := by simpa [hn] using hn'
  rw [← Array.getElem?_toList] at hm hn
  obtain ⟨hi, rfl⟩ := List.getElem?_eq_some_iff.1 hm
  obtain ⟨hj, rfl⟩ := List.getElem?_eq_some_iff.1 hn
  have apart := List.pairwise_iff_getElem.1 (List.pairwise_map.1 h.methods)
  have owner : d.nameOf d.methods.toList[a.index].owner = d.nameOf d.methods.toList[b.index].owner := by rw [hmo, hno]
  rcases Nat.lt_trichotomy a.index b.index with hlt | heq | hlt
  · exact absurd ⟨hma, hna⟩ (apart _ _ hi hj hlt owner (hmn.trans hnn.symm) arguments)
  · cases a
    cases b
    simpa using heq
  · exact absurd ⟨hna, hma⟩ (apart _ _ hj hi hlt owner.symm (hnn.trans hmn.symm) arguments)

namespace SameItems

variable (h : SameItems d d' fs gs)
include h

/-! ## Types -/

theorem types_biUnique : Relator.BiUnique (correspondence d d' fs gs).types :=
  sameEntry_biUnique (fun _ _ => typeId_ext.1) h.left.typeItems_nodup h.right.typeItems_nodup

/-- a type has its partner in the other file, with the same declaration -/
theorem type {id : TypeId} {t : TypeDecl} (ht : d.typeAt? id = some t) :
    ∃ id' t', (correspondence d d' fs gs).types id id' ∧ d'.typeAt? id' = some t' ∧ d.typeItem t = d'.typeItem t' := by
  have entry : (d.types.toList.map d.typeItem)[id.index]? = some (d.typeItem t) := by
    rw [List.getElem?_map, typeAt?_iff.1 ht, Option.map_some]
  obtain ⟨id', hid', hr⟩ := exists_sameEntry (fun n => ⟨⟨n⟩, rfl⟩) h.types entry
  rw [List.getElem?_map, Option.map_eq_some_iff] at hid'
  obtain ⟨t', ht', heq⟩ := hid'
  exact ⟨id', t', hr, typeAt?_iff.2 ht', heq.symm⟩

/-- types of one name correspond -/
theorem types_of_name {id id' : TypeId} (hi : id.index < d.types.size) (hi' : id'.index < d'.types.size)
    (hn : d.nameOf id = d'.nameOf id') : (correspondence d d' fs gs).types id id' := by
  obtain ⟨t, ht⟩ : ∃ t, d.typeAt? id = some t := ⟨_, Array.getElem?_eq_getElem hi⟩
  obtain ⟨id'', t', hr, ht', heq⟩ := h.type ht
  have name : d.nameOf id = d'.nameOf id'' := by
    rw [nameOf_of_typeAt ht, nameOf_of_typeAt ht']
    exact congrArg (·.decl.name) heq
  obtain rfl := Distinct.typeId_eq h.right.names (Array.getElem?_eq_some_iff.1 ht').1 hi' (name.symm.trans hn)
  exact hr

omit h in
theorem related_types {id id' : TypeId} (hr : (correspondence d d' fs gs).types id id') :
    ∃ t t', d.typeAt? id = some t ∧ d'.typeAt? id' = some t' ∧ d.typeItem t = d'.typeItem t' := by
  obtain ⟨x, hx, hx'⟩ := hr
  rw [List.getElem?_map, Option.map_eq_some_iff] at hx hx'
  obtain ⟨t, ht, rfl⟩ := hx
  obtain ⟨t', ht', heq⟩ := hx'
  exact ⟨t, t', typeAt?_iff.2 ht, typeAt?_iff.2 ht', heq.symm⟩

omit h in
/-! ## Names -/

/-- declared types by their simple names -/
theorem declared_lookup (name : String) : d.names.declared.lookup name = d'.names.declared.lookup name := by
  have key (t : TypeDecl) : (t.name, t.binaryName) = (fun x : TypeItem => (x.decl.name, x.decl.binaryName)) (d.typeItem t) :=
    rfl
  have perm : d.names.declared.Perm d'.names.declared := by
    have mapped := h.types.map fun x => (x.decl.name, x.decl.binaryName)
    rw [List.map_map, List.map_map] at mapped
    rw [h.left.coherent.declared, h.right.coherent.declared]
    exact mapped
  have unique {e : Declarations} {es : List OwnedField} (he : e.Told es) (a b : String)
      (ha : (name, a) ∈ e.names.declared) (hb : (name, b) ∈ e.names.declared) : a = b := by
    rw [he.coherent.declared] at ha hb
    obtain ⟨t, ht, hta⟩ := List.mem_map.1 ha
    obtain ⟨u, hu, hub⟩ := List.mem_map.1 hb
    obtain ⟨rfl, rfl⟩ := Prod.mk.inj hta
    obtain ⟨hnu, rfl⟩ := Prod.mk.inj hub
    rw [List.inj_on_of_nodup_map he.names ht hu hnu.symm]
  refine optionRel_eq.1 (optionRel_of_iff (lookup_iff_mem (unique h.left)) (lookup_iff_mem (unique h.right))
    (fun a ha => ⟨a, perm.mem_iff.1 ha, rfl⟩) fun a ha => ⟨a, perm.mem_iff.2 ha⟩)

theorem resolve? (written : String) : d.names.resolve? written = d'.names.resolve? written := by
  have simple (name : String) : d.names.resolveSimple? name = d'.names.resolveSimple? name := by
    rw [NameTable.resolveSimple?, NameTable.resolveSimple?, h.declared_lookup, h.table]
  simp only [NameTable.resolve?, simple]

theorem resolveOrErase (written : String) : d.names.resolveOrErase written = d'.names.resolveOrErase written := by
  rw [NameTable.resolveOrErase, NameTable.resolveOrErase, h.resolve?]

/-! ## Fields -/

theorem fields_biUnique : Relator.BiUnique (correspondence d d' fs gs).vars :=
  sameEntry_biUnique (fun a b hab => by cases a; cases b; simpa using hab) h.left.fieldItems_nodup
    h.right.fieldItems_nodup

theorem field {id : VariableId} {f : OwnedField} (hf : fs[id.index]? = some f) :
    ∃ id' g, (correspondence d d' fs gs).vars id id' ∧ gs[id'.index]? = some g ∧ d.fieldItem f = d'.fieldItem g := by
  have entry : (fs.map d.fieldItem)[id.index]? = some (d.fieldItem f) := by rw [List.getElem?_map, hf, Option.map_some]
  obtain ⟨id', hid', hr⟩ := exists_sameEntry (fun n => ⟨⟨n⟩, rfl⟩) h.fields entry
  rw [List.getElem?_map, Option.map_eq_some_iff] at hid'
  obtain ⟨g, hg, heq⟩ := hid'
  exact ⟨id', g, hr, hg, heq.symm⟩

omit h in
theorem related_fields {id id' : VariableId} (hr : (correspondence d d' fs gs).vars id id') :
    ∃ f g, fs[id.index]? = some f ∧ gs[id'.index]? = some g ∧ d.fieldItem f = d'.fieldItem g := by
  obtain ⟨x, hx, hx'⟩ := hr
  rw [List.getElem?_map, Option.map_eq_some_iff] at hx hx'
  obtain ⟨f, hf, rfl⟩ := hx
  obtain ⟨g, hg, heq⟩ := hx'
  exact ⟨f, g, hf, hg, heq.symm⟩

/-- the owners of corresponding fields correspond -/
theorem fieldOwner {f g : OwnedField} (hf : f ∈ fs) (hg : g ∈ gs) (heq : d.fieldItem f = d'.fieldItem g) :
    (correspondence d d' fs gs).types f.owner g.owner :=
  h.types_of_name (h.left.coherent.fieldOwner f hf) (h.right.coherent.fieldOwner g hg) (congrArg (·.owner) heq)

/-- a field of a type is a field of that name of the corresponding type -/
theorem field_mem {id id' : TypeId} (hid : (correspondence d d' fs gs).types id id') {name : String} {a : VariableId}
    (ha : (name, a) ∈ (d.membersOf id).fields) :
    ∃ b, (name, b) ∈ (d'.membersOf id').fields ∧ (correspondence d d' fs gs).vars a b := by
  obtain ⟨f, hf, rfl, rfl⟩ := (h.left.coherent.fieldMembers id name a).1 ha
  obtain ⟨b, g, hr, hg, heq⟩ := h.field hf
  have owner := h.fieldOwner (List.mem_of_getElem? hf) (List.mem_of_getElem? hg) heq
  refine ⟨b, (h.right.coherent.fieldMembers id' _ b).2 ⟨g, hg, h.types_biUnique.2 owner hid, ?_⟩, hr⟩
  exact congrArg (·.decl.name) heq.symm

theorem lookup_field {id id' : TypeId} (hid : (correspondence d d' fs gs).types id id') (name : String) :
    Option.Rel (correspondence d d' fs gs).vars ((d.membersOf id).fields.lookup name)
      ((d'.membersOf id').fields.lookup name) := by
  refine optionRel_of_iff (lookup_iff_mem (Told.field_unique h.left id name))
    (lookup_iff_mem (Told.field_unique h.right id' name)) (fun a ha => h.field_mem hid ha) fun b hb => ?_
  obtain ⟨a, ha, -⟩ := h.symm.field_mem hid.symm hb
  exact ⟨a, ha⟩

/-! ## Methods -/

theorem methods_biUnique : Relator.BiUnique (correspondence d d' fs gs).methods :=
  sameEntry_biUnique (fun a b hab => by cases a; cases b; simpa using hab) h.left.methodItems_nodup
    h.right.methodItems_nodup

theorem method {id : MethodId} {m : MethodDecl} (hm : d.methods[id.index]? = some m) :
    ∃ id' m', (correspondence d d' fs gs).methods id id' ∧ d'.methods[id'.index]? = some m' ∧
      d.methodItem m = d'.methodItem m' := by
  have entry : (d.methods.toList.map d.methodItem)[id.index]? = some (d.methodItem m) := by
    rw [List.getElem?_map, Array.getElem?_toList, hm, Option.map_some]
  obtain ⟨id', hid', hr⟩ := exists_sameEntry (fun n => ⟨⟨n⟩, rfl⟩) h.methods entry
  rw [List.getElem?_map, Option.map_eq_some_iff, Array.getElem?_toList] at hid'
  obtain ⟨m', hm', heq⟩ := hid'
  exact ⟨id', m', hr, hm', heq.symm⟩

omit h in
theorem related_methods {id id' : MethodId} (hr : (correspondence d d' fs gs).methods id id') :
    ∃ m m', d.methods[id.index]? = some m ∧ d'.methods[id'.index]? = some m' ∧ d.methodItem m = d'.methodItem m' := by
  obtain ⟨x, hx, hx'⟩ := hr
  rw [List.getElem?_map, Option.map_eq_some_iff, Array.getElem?_toList] at hx hx'
  obtain ⟨m, hm, rfl⟩ := hx
  obtain ⟨m', hm', heq⟩ := hx'
  exact ⟨m, m', hm, hm', heq.symm⟩

/-- the owners of corresponding methods correspond -/
theorem methodOwner {m m' : MethodDecl} (hm : m ∈ d.methods.toList) (hm' : m' ∈ d'.methods.toList)
    (heq : d.methodItem m = d'.methodItem m') : (correspondence d d' fs gs).types m.owner m'.owner :=
  h.types_of_name (h.left.coherent.methodOwner m hm) (h.right.coherent.methodOwner m' hm') (congrArg (·.owner) heq)

theorem method_mem {id id' : TypeId} (hid : (correspondence d d' fs gs).types id id') {name : String} {arguments : Nat}
    {a : MethodId} (ha : a ∈ (d.membersOf id).methods ∧ d.takes name arguments a = true) :
    ∃ b, (b ∈ (d'.membersOf id').methods ∧ d'.takes name arguments b = true) ∧
      (correspondence d d' fs gs).methods a b := by
  obtain ⟨m, hm, rfl⟩ := (h.left.coherent.methodMembers id a).1 ha.1
  obtain ⟨b, m', hr, hm', heq⟩ := h.method hm
  obtain ⟨n, hn, hname, harity⟩ := takes_iff.1 ha.2
  obtain rfl : m = n := by simpa [hm] using hn
  have mem : m ∈ d.methods.toList := List.mem_of_getElem? (by rw [Array.getElem?_toList, hm])
  have mem' : m' ∈ d'.methods.toList := List.mem_of_getElem? (by rw [Array.getElem?_toList, hm'])
  have decl : ({ m with owner := ⟨0⟩ } : MethodDecl) = { m' with owner := ⟨0⟩ } := congrArg (·.decl) heq
  refine ⟨b, ⟨(h.right.coherent.methodMembers id' b).2 ⟨m', hm', ?_⟩, takes_iff.2 ⟨m', hm', ?_, ?_⟩⟩, hr⟩
  · exact h.types_biUnique.2 (h.methodOwner mem mem' heq) hid
  · rw [← hname]
    exact congrArg (·.name) decl.symm
  · rw [← harity]
    exact congrArg (·.acceptsArity arguments) decl.symm

theorem ownMethod? {id id' : TypeId} (hid : (correspondence d d' fs gs).types id id') (name : String) (arguments : Nat) :
    Option.Rel (correspondence d d' fs gs).methods (d.ownMethod? id name arguments)
      (d'.ownMethod? id' name arguments) := by
  refine optionRel_of_iff
    (find?_iff_mem (p := d.takes name arguments) fun a ha b hb hta htb => h.left.method_unique ha hb hta htb)
    (find?_iff_mem (p := d'.takes name arguments) fun a ha b hb hta htb => h.right.method_unique ha hb hta htb)
    (fun a ha => h.method_mem hid ha) fun b hb => ?_
  obtain ⟨a, ha, -⟩ := h.symm.method_mem hid.symm hb
  exact ⟨a, ha⟩

/-! ## Bodies -/

/-- bodies with the same item belong to corresponding declarations -/
theorem body {s : Source} {b b' : Body} (hb : b ∈ d.bodies.toList) (hb' : b' ∈ d'.bodies.toList) (hn : b.node.Shaped)
    (heq : d.bodyItem fs b = d'.bodyItem gs b') : Body.Alike (correspondence d d' fs gs) s s b b' := by
  have alike : b.node.Alike (· = ·) s s b.node := Node.Alike.refl (fun _ => rfl) hn
  have within := h.left.coherent.bodies b hb
  have within' := h.right.coherent.bodies b' hb'
  cases b with
  | method id n =>
    cases b' with
    | method id' n' =>
      obtain ⟨items, rfl⟩ := BodyItem.method.inj heq
      exact .method ⟨_, methodItem_entry within, items ▸ methodItem_entry within'⟩ alike
    | _ => simp [bodyItem] at heq
  | field id owner value =>
    cases b' with
    | field id' owner' value' =>
      obtain ⟨items, rfl⟩ := BodyItem.field.inj heq
      obtain ⟨f, hf, rfl⟩ := within
      obtain ⟨g, hg, rfl⟩ := within'
      have vars : (correspondence d d' fs gs).vars id id' := ⟨_, fieldItem_entry hf, items ▸ fieldItem_entry hg⟩
      rw [hf, hg, Option.getD_some, Option.getD_some] at items
      exact .field vars (h.fieldOwner (List.mem_of_getElem? hf) (List.mem_of_getElem? hg) items) alike
    | _ => simp [bodyItem] at heq
  | block owner n =>
    cases b' with
    | block owner' n' =>
      obtain ⟨name, rfl⟩ := BodyItem.block.inj heq
      exact .block (h.types_of_name within within' name) alike
    | _ => simp [bodyItem] at heq

theorem bodies_alike {s : Source} (hn : ∀ b ∈ d.bodies.toList, b.node.Shaped) :
    PermRel (Body.Alike (correspondence d d' fs gs) s s) d.bodies.toList d'.bodies.toList :=
  (PermRel.of_map_perm h.bodies).with_mem.mono fun _ _ ⟨hb, hb', heq⟩ => h.body hb hb' (hn _ hb) heq

/-- bodies of different declarations have different items, so the bodies of both files are apart -/
theorem bodies_apart (ha : d.bodies.toList.Pairwise Body.Apart) : d'.bodies.toList.Pairwise Body.Apart := by
  have items : (d.bodies.toList.map (d.bodyItem fs)).Pairwise BodyItem.Apart := by
    refine List.pairwise_map.2 (List.Pairwise.imp_of_mem (fun {b c} hb hc hbc => ?_) ha)
    have within := h.left.coherent.bodies b hb
    have within' := h.left.coherent.bodies c hc
    cases b with
    | method i n =>
      cases c with
      | method j n' =>
        intro heq
        exact hbc (getElem?_inj_of_nodup h.left.methodItems_nodup (methodItem_entry within) (heq ▸ methodItem_entry within'))
      | _ => trivial
    | field i owner value =>
      cases c with
      | field j owner' value' =>
        obtain ⟨f, hf, -⟩ := within
        obtain ⟨g, hg, -⟩ := within'
        intro heq
        exact hbc (getElem?_inj_of_nodup h.left.fieldItems_nodup (fieldItem_entry hf) (heq ▸ fieldItem_entry hg))
      | _ => trivial
    | block owner n => cases c <;> trivial
  refine (List.pairwise_map.1 ((h.bodies.pairwise_iff BodyItem.Apart.symm).1 items)).imp fun {b c} hbc => ?_
  cases b with
  | method i n =>
    cases c with
    | method j n' => exact fun hij => hbc (by rw [hij])
    | _ => trivial
  | field i owner value =>
    cases c with
    | field j owner' value' => exact fun hij => hbc (by rw [hij])
    | _ => trivial
  | block owner n => cases c <;> trivial

end SameItems

end Declarations

end CallLint
