/-
What is collected from a file, without ids. The outline of some declarations names owners where the declarations have
ids, and does not keep their order. Declarations are coherent when their tables tell the same as their lists
(`Declarations.Coherent`); each step of the collection keeps that and adds to the outline what it collects, whatever was
collected before (`Declarations.Adds`).
-/
import CallLint.Source.Declarations
import Mathlib.Algebra.Order.Group.Multiset
import Mathlib.Tactic

namespace CallLint

/-! ## Items -/

/-- a type with the name of the type around it -/
structure TypeItem where
  decl : TypeDecl
  enclosing : Option String

/-- a field with the name of its type and its own type as written -/
structure FieldItem where
  owner : String
  decl : VariableDecl
  type : String

/-- a method with the name of its type -/
structure MethodItem where
  owner : String
  decl : MethodDecl

/-- a body with the declaration that it belongs to -/
inductive BodyItem where
  | method (method : MethodItem) (node : Node)
  | field (field : FieldItem) (value : Node)
  | block (owner : String) (node : Node)

/-- what is collected, in no order -/
abbrev Outline := Multiset TypeItem × Multiset FieldItem × Multiset MethodItem × Multiset BodyItem

/-- a field with the id of its type -/
structure OwnedField where
  owner : TypeId
  decl : VariableDecl
  type : String
deriving Inhabited

namespace Declarations

/-- simple name of a type -/
def nameOf (d : Declarations) (id : TypeId) : String :=
  ((d.typeAt? id).map (·.name)).getD ""

def typeItem (d : Declarations) (t : TypeDecl) : TypeItem :=
  ⟨{ t with enclosing := none }, t.enclosing.map d.nameOf⟩

def fieldItem (d : Declarations) (f : OwnedField) : FieldItem :=
  ⟨d.nameOf f.owner, f.decl, f.type⟩

def methodItem (d : Declarations) (m : MethodDecl) : MethodItem :=
  ⟨d.nameOf m.owner, { m with owner := ⟨0⟩ }⟩

def bodyItem (d : Declarations) (fs : List OwnedField) : Body → BodyItem
  | .method id n => .method (d.methodItem (d.methods[id.index]?.getD default)) n
  | .field id _ value => .field (d.fieldItem (fs[id.index]?.getD default)) value
  | .block owner n => .block (d.nameOf owner) n

/-- the outline of declarations whose fields have owners as listed -/
def outline (d : Declarations) (fs : List OwnedField) : Outline :=
  (↑(d.types.toList.map d.typeItem), ↑(fs.map d.fieldItem), ↑(d.methods.toList.map d.methodItem),
    ↑(d.bodies.toList.map (d.bodyItem fs)))

end Declarations

/-- the body belongs to a declaration that is there -/
def Body.Within (d : Declarations) (fs : List OwnedField) : Body → Prop
  | .method id _ => id.index < d.methods.size
  | .field id owner _ => ∃ f, fs[id.index]? = some f ∧ f.owner = owner
  | .block owner _ => owner.index < d.types.size

/-- the tables of the declarations tell the same as their lists, and all ids are in them -/
structure Declarations.Coherent (d : Declarations) (fs : List OwnedField) : Prop where
  fields : d.fields.toList = fs.map (·.decl)
  fieldTypes : d.fieldTypes.toList = fs.map (·.type)
  members : d.members.size = d.types.size
  fieldMembers : ∀ t name i, (name, i) ∈ (d.membersOf t).fields ↔
    ∃ f, fs[i.index]? = some f ∧ f.owner = t ∧ f.decl.name = name
  methodMembers : ∀ t i, i ∈ (d.membersOf t).methods ↔ ∃ m, d.methods[i.index]? = some m ∧ m.owner = t
  declared : d.names.declared = d.types.toList.map fun t => (t.name, t.binaryName)
  enclosing : ∀ t ∈ d.types.toList, ∀ e, t.enclosing = some e → e.index < d.types.size
  fieldOwner : ∀ f ∈ fs, f.owner.index < d.types.size
  methodOwner : ∀ m ∈ d.methods.toList, m.owner.index < d.types.size
  bodies : ∀ b ∈ d.bodies.toList, b.Within d fs
  unlinked : ∀ t ∈ d.types.toList, t.superclassId = none
  uninitialized : ∀ f ∈ fs, f.decl.initializer = none
  withoutCode : ∀ m ∈ d.methods.toList, m.body = none

namespace Declarations

variable {d d' : Declarations} {fs gs : List OwnedField}

theorem nameOf_of_typeAt {id : TypeId} {t : TypeDecl} (h : d.typeAt? id = some t) : d.nameOf id = t.name := by
  rw [nameOf, h]
  rfl

theorem ofNames_coherent {names : NameTable} (h : names.declared = []) : (ofNames names).Coherent [] := by
  refine ⟨rfl, rfl, rfl, ?_, ?_, h, ?_, ?_, ?_, ?_, ?_, ?_, ?_⟩ <;> simp [ofNames, membersOf]

/-! ## More declarations -/

theorem getElem?_of_append {α : Type} {xs ys : Array α} {l : List α} (h : ys.toList = xs.toList ++ l) {i : Nat}
    (hi : i < xs.size) : ys[i]? = xs[i]? := by
  rw [← Array.getElem?_toList, h, List.getElem?_append_left (by simpa using hi), Array.getElem?_toList]

theorem size_of_append {α : Type} {xs ys : Array α} {l : List α} (h : ys.toList = xs.toList ++ l) :
    ys.size = xs.size + l.length := by
  rw [← Array.length_toList, h, List.length_append, Array.length_toList]

/-- the name of a type stays when more types come -/
theorem nameOf_append {ts : List TypeDecl} (h : d'.types.toList = d.types.toList ++ ts) {id : TypeId}
    (hi : id.index < d.types.size) : d'.nameOf id = d.nameOf id := by
  rw [nameOf, nameOf, typeAt?, typeAt?, getElem?_of_append h hi]

theorem typeItem_append {ts : List TypeDecl} (h : d'.types.toList = d.types.toList ++ ts) {t : TypeDecl}
    (ht : ∀ e, t.enclosing = some e → e.index < d.types.size) : d'.typeItem t = d.typeItem t := by
  rw [typeItem, typeItem]
  cases he : t.enclosing with
  | none => rfl
  | some e => rw [Option.map_some, Option.map_some, nameOf_append h (ht e he)]

theorem Coherent.bodyItem_append (hc : d.Coherent fs) {ts : List TypeDecl} (ht : d'.types.toList = d.types.toList ++ ts)
    {ms : List MethodDecl} (hm : d'.methods.toList = d.methods.toList ++ ms) {b : Body} (hb : b.Within d fs) :
    d'.bodyItem (fs ++ gs) b = d.bodyItem fs b := by
  cases b with
  | method id n =>
    have hi : id.index < d.methods.size := hb
    have found := getElem?_of_append hm hi
    rw [bodyItem, bodyItem, found, Array.getElem?_eq_getElem hi, Option.getD_some, methodItem, methodItem,
      nameOf_append ht (hc.methodOwner _ (by simp))]
  | field id owner value =>
    obtain ⟨f, hf, -⟩ := hb
    rw [bodyItem, bodyItem, List.getElem?_append_left (List.getElem?_eq_some_iff.1 hf).1, hf, Option.getD_some, fieldItem,
      fieldItem, nameOf_append ht (hc.fieldOwner f (List.mem_of_getElem? hf))]
  | block owner n => rw [bodyItem, bodyItem, nameOf_append ht hb]

/-- the outline of more declarations, whose items are those before and the new ones -/
theorem Coherent.outline_append (hc : d.Coherent fs) {ts : List TypeDecl} (ht : d'.types.toList = d.types.toList ++ ts)
    {ms : List MethodDecl} (hm : d'.methods.toList = d.methods.toList ++ ms) {bs : List Body}
    (hb : d'.bodies.toList = d.bodies.toList ++ bs) :
    d'.outline (fs ++ gs) = d.outline fs + ((↑(ts.map d'.typeItem), ↑(gs.map d'.fieldItem), ↑(ms.map d'.methodItem),
      ↑(bs.map (d'.bodyItem (fs ++ gs)))) : Outline) := by
  have types : d.types.toList.map d'.typeItem = d.types.toList.map d.typeItem :=
    List.map_congr_left fun t hmem => typeItem_append ht (hc.enclosing t hmem)
  have fields : fs.map d'.fieldItem = fs.map d.fieldItem :=
    List.map_congr_left fun f hmem => by rw [fieldItem, fieldItem, nameOf_append ht (hc.fieldOwner f hmem)]
  have methods : d.methods.toList.map d'.methodItem = d.methods.toList.map d.methodItem :=
    List.map_congr_left fun m hmem => by rw [methodItem, methodItem, nameOf_append ht (hc.methodOwner m hmem)]
  have bodies : d.bodies.toList.map (d'.bodyItem (fs ++ gs)) = d.bodies.toList.map (d.bodyItem fs) :=
    List.map_congr_left fun b hmem => hc.bodyItem_append ht hm (hc.bodies b hmem)
  rw [outline, outline, ht, hm, hb, List.map_append, List.map_append, List.map_append, List.map_append, types, fields,
    methods, bodies]
  rfl

theorem within_append {b : Body} (hb : b.Within d fs) {ts : List TypeDecl}
    (ht : d'.types.toList = d.types.toList ++ ts) {ms : List MethodDecl}
    (hm : d'.methods.toList = d.methods.toList ++ ms) : b.Within d' (fs ++ gs) := by
  cases b with
  | method id n =>
    change id.index < d'.methods.size
    rw [size_of_append hm]
    exact Nat.lt_add_right _ hb
  | field id owner value =>
    obtain ⟨f, hf, howner⟩ := hb
    exact ⟨f, by rw [List.getElem?_append_left (List.getElem?_eq_some_iff.1 hf).1, hf], howner⟩
  | block owner n =>
    change owner.index < d'.types.size
    rw [size_of_append ht]
    exact Nat.lt_add_right _ hb

/-! ## Steps -/

/-- the later declarations have all of the first ones and, besides, what is in the outline -/
structure Adds (o : Outline) (d d' : Declarations) : Prop where
  types : ∃ ts, d'.types.toList = d.types.toList ++ ts
  names : d'.names = { d.names with declared := d'.names.declared }
  outline : ∀ fs, d.Coherent fs → ∃ gs, d'.Coherent (fs ++ gs) ∧ d'.outline (fs ++ gs) = d.outline fs + o

theorem Adds.nothing (d : Declarations) : Adds 0 d d :=
  ⟨⟨[], by rw [List.append_nil]⟩, rfl, fun fs hc => ⟨[], by rwa [List.append_nil], by rw [List.append_nil, add_zero]⟩⟩

theorem Adds.append {o o' : Outline} {d'' : Declarations} (h : Adds o d d') (h' : Adds o' d' d'') :
    Adds (o + o') d d'' := by
  obtain ⟨ts, ht⟩ := h.types
  obtain ⟨ts', ht'⟩ := h'.types
  refine ⟨⟨ts ++ ts', by rw [ht', ht, List.append_assoc]⟩, by rw [h'.names, h.names], fun fs hc => ?_⟩
  obtain ⟨gs, hc', ho⟩ := h.outline fs hc
  obtain ⟨gs', hc'', ho'⟩ := h'.outline _ hc'
  exact ⟨gs ++ gs', by rwa [← List.append_assoc], by rw [← List.append_assoc, ho', ho, add_assoc]⟩

theorem Adds.typeAt? {o : Outline} (h : Adds o d d') {id : TypeId} {t : TypeDecl} (ht : d.typeAt? id = some t) :
    d'.typeAt? id = some t := by
  obtain ⟨ts, hts⟩ := h.types
  rw [Declarations.typeAt?, getElem?_of_append hts (Array.getElem?_eq_some_iff.1 ht).1]
  exact ht

/-- members of a type after a change to those of one type -/
theorem membersOf_modify {ms : Array Members} {g : Members → Members} {owner : Nat} (ho : owner < ms.size) (t : TypeId) :
    (ms.modify owner g)[t.index]?.getD ⟨[], []⟩ =
      if owner = t.index then g (ms[t.index]?.getD ⟨[], []⟩) else ms[t.index]?.getD ⟨[], []⟩ := by
  rw [Array.getElem?_modify]
  split_ifs with h
  · subst h
    rw [Array.getElem?_eq_getElem ho]
    rfl
  · rfl

theorem typeId_ext {a b : TypeId} : a.index = b.index ↔ a = b := by
  cases a
  cases b
  simp

/-- an entry of a list with one more item is an entry before or the new one -/
theorem exists_getElem?_snoc {α : Type} {l : List α} {a : α} {i : Nat} {p : α → Prop} :
    (∃ b, (l ++ [a])[i]? = some b ∧ p b) ↔ (∃ b, l[i]? = some b ∧ p b) ∨ (i = l.length ∧ p a) := by
  rcases Nat.lt_trichotomy i l.length with h | rfl | h
  · simp [List.getElem?_append_left h, h.ne]
  · simp
  · simp [List.getElem?_append_right h.le, List.getElem?_eq_none h.le, h.ne', Nat.sub_ne_zero_of_lt h]

theorem addBody_adds {b : Body} {item : BodyItem} (hb : ∀ fs, d.Coherent fs → b.Within d fs ∧ d.bodyItem fs b = item) :
    Adds (0, 0, 0, {item}) d (d.addBody b) := by
  refine ⟨⟨[], by simp [addBody]⟩, rfl, fun fs hc => ?_⟩
  obtain ⟨hwithin, hitem⟩ := hb fs hc
  have within : ∀ c ∈ (d.addBody b).bodies.toList, c.Within d fs := by
    intro c hmem
    rw [addBody, Array.toList_push, List.mem_append, List.mem_singleton] at hmem
    exact hmem.elim (hc.bodies c) fun h => h ▸ hwithin
  have types : (d.addBody b).types.toList = d.types.toList ++ [] := by simp [addBody]
  have methods : (d.addBody b).methods.toList = d.methods.toList ++ [] := by simp [addBody]
  refine ⟨[], ?_, ?_⟩
  · refine ⟨?_, ?_, hc.members, ?_, hc.methodMembers, hc.declared, hc.enclosing, ?_, hc.methodOwner, fun c hmem =>
      within_append (within c hmem) types methods, hc.unlinked, ?_, hc.withoutCode⟩
    all_goals rw [List.append_nil]
    · exact hc.fields
    · exact hc.fieldTypes
    · exact hc.fieldMembers
    · exact hc.fieldOwner
    · exact hc.uninitialized
  · have bodies : (d.addBody b).bodies.toList = d.bodies.toList ++ [b] := by simp [addBody]
    rw [hc.outline_append types methods bodies, List.map_singleton, hc.bodyItem_append types methods hwithin, hitem]
    rfl

theorem addField_adds {owner : TypeId} {t : TypeDecl} (ho : d.typeAt? owner = some t) (name type : String) (isFinal : Bool)
    (span : Span) :
    Adds (0, {⟨t.name, ⟨name, .field, none, isFinal, none, span⟩, type⟩}, 0, 0) d
      (d.addField owner name type isFinal span) := by
  refine ⟨⟨[], by simp [addField]⟩, rfl, fun fs hc => ?_⟩
  have lt : owner.index < d.types.size := (Array.getElem?_eq_some_iff.1 ho).1
  have size : d.fields.size = fs.length := by rw [← Array.length_toList, hc.fields, List.length_map]
  let f : OwnedField := ⟨owner, ⟨name, .field, none, isFinal, none, span⟩, type⟩
  let d' := d.addField owner name type isFinal span
  have types : d'.types.toList = d.types.toList ++ [] := by simp [d', addField]
  have methods : d'.methods.toList = d.methods.toList ++ [] := by simp [d', addField]
  have members (u : TypeId) : d'.membersOf u =
      if owner.index = u.index then { d.membersOf u with fields := (name, ⟨d.fields.size⟩) :: (d.membersOf u).fields }
      else d.membersOf u := membersOf_modify (hc.members ▸ lt) u
  refine ⟨[f], ⟨?_, ?_, ?_, fun u key i => ?_, fun u i => ?_, hc.declared, hc.enclosing, ?_, hc.methodOwner,
    fun c hmem => within_append (hc.bodies c hmem) types methods, hc.unlinked, ?_, hc.withoutCode⟩, ?_⟩
  · simp [addField, hc.fields, f]
  · simp [addField, hc.fieldTypes, f]
  · simpa [addField] using hc.members
  · rw [exists_getElem?_snoc, ← hc.fieldMembers u key i, ← size]
    change (key, i) ∈ (d'.membersOf u).fields ↔ _
    rw [members]
    split_ifs with hu
    · obtain ⟨i⟩ := i
      obtain rfl := typeId_ext.1 hu
      simp [f, or_comm, and_comm, eq_comm]
    · have other : owner ≠ u := fun h => hu (typeId_ext.2 h)
      simp [f, other]
  · change i ∈ (d'.membersOf u).methods ↔ _
    change _ ↔ ∃ m, d.methods[i.index]? = some m ∧ m.owner = u
    rw [← hc.methodMembers u i, members]
    split_ifs <;> rfl
  · exact List.forall_mem_append.2 ⟨hc.fieldOwner, List.forall_mem_singleton.2 lt⟩
  · exact List.forall_mem_append.2 ⟨hc.uninitialized, List.forall_mem_singleton.2 rfl⟩
  · have bodies : d'.bodies.toList = d.bodies.toList ++ [] := by simp [d', addField]
    rw [hc.outline_append types methods bodies, List.map_singleton, fieldItem, nameOf_append types lt,
      nameOf_of_typeAt ho]
    rfl

/-- one more method of a type -/
def pushMethod (d : Declarations) (m : MethodDecl) : Declarations :=
  { d with
    methods := d.methods.push m
    members := d.members.modify m.owner.index fun ms => { ms with methods := ms.methods ++ [⟨d.methods.size⟩] } }

theorem pushMethod_adds {m : MethodDecl} {t : TypeDecl} (ho : d.typeAt? m.owner = some t) (hm : m.body = none) :
    Adds (0, 0, {⟨t.name, { m with owner := ⟨0⟩ }⟩}, 0) d (d.pushMethod m) := by
  refine ⟨⟨[], by simp [pushMethod]⟩, rfl, fun fs hc => ?_⟩
  have lt : m.owner.index < d.types.size := (Array.getElem?_eq_some_iff.1 ho).1
  let d' := d.pushMethod m
  have types : d'.types.toList = d.types.toList ++ [] := by simp [d', pushMethod]
  have methods : d'.methods.toList = d.methods.toList ++ [m] := by simp [d', pushMethod]
  have members (u : TypeId) : d'.membersOf u =
      if m.owner.index = u.index then
        { d.membersOf u with methods := (d.membersOf u).methods ++ [⟨d.methods.size⟩] }
      else d.membersOf u := membersOf_modify (hc.members ▸ lt) u
  refine ⟨[], ?_, ?_⟩
  · rw [List.append_nil]
    refine ⟨hc.fields, hc.fieldTypes, ?_, fun u key i => ?_, fun u i => ?_, hc.declared, hc.enclosing, hc.fieldOwner, ?_,
      fun c hmem => ?_, hc.unlinked, hc.uninitialized, ?_⟩
    · simpa [pushMethod] using hc.members
    · change (key, i) ∈ (d'.membersOf u).fields ↔ _
      rw [← hc.fieldMembers u key i, members]
      split_ifs <;> rfl
    · change i ∈ (d'.membersOf u).methods ↔ ∃ n, d'.methods[i.index]? = some n ∧ _
      simp only [← Array.getElem?_toList, methods]
      rw [exists_getElem?_snoc]
      simp only [Array.getElem?_toList]
      rw [← hc.methodMembers u i, members]
      split_ifs with hu
      · obtain ⟨i⟩ := i
        obtain rfl := typeId_ext.1 hu
        simp
      · have other : m.owner ≠ u := fun h => hu (typeId_ext.2 h)
        simp [other]
    · change ∀ n ∈ d'.methods.toList, _
      rw [methods]
      exact List.forall_mem_append.2 ⟨hc.methodOwner, List.forall_mem_singleton.2 lt⟩
    · have within : c.Within d' (fs ++ []) := within_append (hc.bodies c hmem) types methods
      rwa [List.append_nil] at within
    · change ∀ n ∈ d'.methods.toList, _
      rw [methods]
      exact List.forall_mem_append.2 ⟨hc.withoutCode, List.forall_mem_singleton.2 hm⟩
  · have bodies : d'.bodies.toList = d.bodies.toList ++ [] := by simp [d', pushMethod]
    rw [hc.outline_append types methods bodies, List.map_singleton, methodItem, nameOf_append types lt,
      nameOf_of_typeAt ho]
    rfl

/-- one more type, so far without members -/
def pushType (d : Declarations) (t : TypeDecl) : Declarations :=
  { d with
    names := d.names.declare t.name t.binaryName
    types := d.types.push t
    members := d.members.push ⟨[], []⟩ }

theorem pushType_adds {t : TypeDecl} (ht : ∀ e, t.enclosing = some e → (d.typeAt? e).isSome)
    (hs : t.superclassId = none) :
    Adds ({d.typeItem t}, 0, 0, 0) d (d.pushType t) := by
  refine ⟨⟨[t], by simp [pushType]⟩, rfl, fun fs hc => ?_⟩
  let d' := d.pushType t
  have enclosing : ∀ e, t.enclosing = some e → e.index < d.types.size := fun e he => by
    obtain ⟨u, hu⟩ := Option.isSome_iff_exists.1 (ht e he)
    exact (Array.getElem?_eq_some_iff.1 hu).1
  have types : d'.types.toList = d.types.toList ++ [t] := by simp [d', pushType]
  have methods : d'.methods.toList = d.methods.toList ++ [] := by simp [d', pushType]
  have more : d.types.size < d'.types.size := by simp [d', pushType]
  -- the new type has no members, as every index without a type
  have members (u : TypeId) : d'.membersOf u = d.membersOf u := by
    change (d.members.push ⟨[], []⟩)[u.index]?.getD ⟨[], []⟩ = d.members[u.index]?.getD ⟨[], []⟩
    rw [Array.getElem?_push]
    split_ifs with h
    · rw [h, Array.getElem?_eq_none le_rfl]
      rfl
    · rfl
  refine ⟨[], ?_, ?_⟩
  · rw [List.append_nil]
    refine ⟨hc.fields, hc.fieldTypes, ?_, fun u key i => ?_, fun u i => ?_, ?_, ?_,
      fun f hf => (hc.fieldOwner f hf).trans more, fun m hm => (hc.methodOwner m hm).trans more, fun c hmem => ?_, ?_,
      hc.uninitialized, hc.withoutCode⟩
    · simpa [pushType] using hc.members
    · change (key, i) ∈ (d'.membersOf u).fields ↔ _
      rw [members, hc.fieldMembers]
    · change i ∈ (d'.membersOf u).methods ↔ _
      rw [members, hc.methodMembers]
      rfl
    · simp [pushType, NameTable.declare, hc.declared]
    · change ∀ u ∈ d'.types.toList, _
      rw [types]
      exact List.forall_mem_append.2 ⟨fun u hu e he => (hc.enclosing u hu e he).trans more,
        List.forall_mem_singleton.2 fun e he => (enclosing e he).trans more⟩
    · have within : c.Within d' (fs ++ []) := within_append (hc.bodies c hmem) types methods
      rwa [List.append_nil] at within
    · change ∀ u ∈ d'.types.toList, _
      rw [types]
      exact List.forall_mem_append.2 ⟨hc.unlinked, List.forall_mem_singleton.2 hs⟩
  · have bodies : d'.bodies.toList = d.bodies.toList ++ [] := by simp [d', pushType]
    rw [hc.outline_append types methods bodies, List.map_singleton,
      typeItem_append types enclosing]
    rfl

end Declarations

end CallLint
