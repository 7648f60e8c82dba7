/-
Links between types of files with the same items. Superclasses are resolved to the same names and so to corresponding
types, and fields get the same types, so declarations with the same items match once they are linked
(`SameItems.link_matches`).
-/
import CallLint.Proofs.Rearranged.Tables

namespace CallLint

namespace Declarations

variable {d d' : Declarations} {fs gs : List OwnedField}

/-! ## What links leave alone -/

theorem typeAt?_link (d : Declarations) (id : TypeId) : d.link.typeAt? id = (d.typeAt? id).map (d.linkType id.index) := by
  rw [typeAt?, typeAt?, link, Array.getElem?_mapIdx]

theorem typeAt?_link_eq_some {id : TypeId} {u : TypeDecl} :
    d.link.typeAt? id = some u ↔ ∃ t, d.typeAt? id = some t ∧ d.linkType id.index t = u := by
  rw [typeAt?_link, Option.map_eq_some_iff]

theorem linkType_binaryName (d : Declarations) (i : Nat) (t : TypeDecl) : (d.linkType i t).binaryName = t.binaryName := by
  rw [linkType]
  cases t.superclass <;> rfl

/-- what links do not change of types -/
theorem map_link {β : Type} (d : Declarations) {f : TypeDecl → β} (hf : ∀ i t, f (d.linkType i t) = f t) :
    d.link.types.toList.map f = d.types.toList.map f := by
  refine List.ext_getElem? fun i => ?_
  have entry := d.typeAt?_link ⟨i⟩
  rw [typeAt?, typeAt?, ← Array.getElem?_toList, ← Array.getElem?_toList] at entry
  rw [List.getElem?_map, List.getElem?_map, entry, Option.map_map]
  exact congrArg (Option.map · _) (funext fun t => hf i t)

theorem linkType_name (d : Declarations) (i : Nat) (t : TypeDecl) : (d.linkType i t).name = t.name := by
  rw [linkType]
  cases t.superclass <;> rfl

theorem Distinct.of_link (h : d.link.Distinct) : d.Distinct where
  names := d.map_link d.linkType_name ▸ h.names
  binaryNames := d.map_link d.linkType_binaryName ▸ h.binaryNames
  fields := h.fields
  methods := h.methods

theorem typeNamed?_eq (d : Declarations) (name : String) :
    d.typeNamed? name = ((d.types.toList.map (·.binaryName)).findIdx? (· == name)).map TypeId.mk := by
  rw [typeNamed?, List.findIdx?_map, ← List.findIdx?_toArray, Array.toArray_toList]
  rfl

/-- links do not change which type has a name -/
theorem typeNamed?_link_eq (d : Declarations) (name : String) : d.link.typeNamed? name = d.typeNamed? name := by
  rw [typeNamed?_eq, typeNamed?_eq, d.map_link d.linkType_binaryName]

/-- the type of a binary name, when names are declared once -/
theorem typeNamed?_iff (h : (d.types.toList.map (·.binaryName)).Nodup) {name : String} {id : TypeId} :
    d.typeNamed? name = some id ↔ ∃ t, d.typeAt? id = some t ∧ t.binaryName = name := by
  rw [typeNamed?, Option.map_eq_some_iff]
  constructor
  · rintro ⟨i, hi, rfl⟩
    obtain ⟨hlt, hname, -⟩ := Array.findIdx?_eq_some_iff_getElem.1 hi
    exact ⟨d.types[i], Array.getElem?_eq_getElem hlt, by simpa using hname⟩
  · rintro ⟨t, ht, rfl⟩
    have there : (d.types.findIdx? (·.binaryName == t.binaryName)).isSome := by
      rw [Array.findIdx?_isSome, Array.any_eq_true']
      exact ⟨t, Array.mem_of_getElem? ht, beq_self_eq_true _⟩
    obtain ⟨i, hi⟩ := Option.isSome_iff_exists.1 there
    obtain ⟨hlt, hname, -⟩ := Array.findIdx?_eq_some_iff_getElem.1 hi
    have found : (d.types.toList.map (·.binaryName))[i]? = some t.binaryName := by
      rw [List.getElem?_map, Array.getElem?_toList, Array.getElem?_eq_getElem hlt]
      simpa using hname
    have entry : (d.types.toList.map (·.binaryName))[id.index]? = some t.binaryName := by
      rw [List.getElem?_map, typeAt?_iff.1 ht, Option.map_some]
    exact ⟨i, hi, typeId_ext.1 (getElem?_inj_of_nodup h found entry)⟩

namespace SameItems

variable (h : SameItems d d' fs gs)
include h

theorem typeNamed? (name : String) :
    Option.Rel (correspondence d d' fs gs).types (d.typeNamed? name) (d'.typeNamed? name) := by
  refine optionRel_of_iff (fun _ => typeNamed?_iff h.left.binaryNames) (fun _ => typeNamed?_iff h.right.binaryNames) ?_ ?_
  · rintro id ⟨t, ht, rfl⟩
    obtain ⟨id', t', hr, ht', heq⟩ := h.type ht
    exact ⟨id', ⟨t', ht', congrArg (·.decl.binaryName) heq.symm⟩, hr⟩
  · rintro id' ⟨t', ht', rfl⟩
    obtain ⟨id, t, -, ht, heq⟩ := h.symm.type ht'
    exact ⟨id, t, ht, congrArg (·.decl.binaryName) heq.symm⟩

theorem enclosing {t t' : TypeDecl} (ht : t ∈ d.types.toList) (ht' : t' ∈ d'.types.toList)
    (heq : d.typeItem t = d'.typeItem t') :
    Option.Rel (correspondence d d' fs gs).types t.enclosing t'.enclosing := by
  have names : t.enclosing.map d.nameOf = t'.enclosing.map d'.nameOf := congrArg (·.enclosing) heq
  cases he : t.enclosing with
  | none =>
    cases he' : t'.enclosing with
    | none => exact .none
    | some e' => simp [he, he'] at names
  | some e =>
    cases he' : t'.enclosing with
    | none => simp [he, he'] at names
    | some e' =>
      rw [he, he', Option.map_some, Option.map_some, Option.some.injEq] at names
      exact .some (h.types_of_name (h.left.coherent.enclosing t ht e he) (h.right.coherent.enclosing t' ht' e' he') names)

/-- **Corresponding types have corresponding superclasses**, wherever these are declared. -/
theorem linkType {id id' : TypeId} (hr : (correspondence d d' fs gs).types id id') {t t' : TypeDecl}
    (ht : d.typeAt? id = some t) (ht' : d'.typeAt? id' = some t') (heq : d.typeItem t = d'.typeItem t') :
    TypeDecl.Matches (correspondence d d' fs gs) (d.linkType id.index t) (d'.linkType id'.index t') := by
  have mem : t ∈ d.types.toList := List.mem_of_getElem? (typeAt?_iff.1 ht)
  have mem' : t' ∈ d'.types.toList := List.mem_of_getElem? (typeAt?_iff.1 ht')
  have decl : ({ t with enclosing := none } : TypeDecl) = { t' with enclosing := none } := congrArg (·.decl) heq
  have superclass : t.superclass = t'.superclass := congrArg (·.superclass) decl
  have enclosing := h.enclosing mem mem' heq
  have name : t.name = t'.name := congrArg (·.name) decl
  have binaryName : t.binaryName = t'.binaryName := congrArg (·.binaryName) decl
  have kind : t.kind = t'.kind := congrArg (·.kind) decl
  have span : t.span = t'.span := congrArg (·.span) decl
  rw [Declarations.linkType, Declarations.linkType, superclass]
  cases hs : t'.superclass with
  | none =>
    refine ⟨name, binaryName, kind, enclosing, superclass, ?_, span⟩
    rw [h.left.coherent.unlinked t mem, h.right.coherent.unlinked t' mem']
    exact .none
  | some written =>
    refine ⟨name, binaryName, kind, enclosing, congrArg some (h.resolveOrErase written), ?_, span⟩
    dsimp only
    rw [h.resolveOrErase written]
    refine optionRel_filter (fun a b hab => ?_) (h.typeNamed? _)
    -- one of two corresponding types is its own superclass when the other is
    have same : a.index = id.index ↔ b.index = id'.index := by
      rw [typeId_ext, typeId_ext]
      exact ⟨fun e => h.types_biUnique.2 (e ▸ hab) hr, fun e => h.types_biUnique.1 (e ▸ hab) hr⟩
    simp only [bne, beq_eq_decide, same]

theorem types_link :
    OneToOne (correspondence d d' fs gs).types (TypeDecl.Matches (correspondence d d' fs gs)) d.link.typeAt?
      d'.link.typeAt? where
  unique := h.types_biUnique
  related hr := by
    obtain ⟨t, t', ht, ht', heq⟩ := related_types hr
    exact ⟨_, _, typeAt?_link_eq_some.2 ⟨t, ht, rfl⟩, typeAt?_link_eq_some.2 ⟨t', ht', rfl⟩, h.linkType hr ht ht' heq⟩
  left hu := by
    obtain ⟨t, ht, -⟩ := typeAt?_link_eq_some.1 hu
    obtain ⟨id', -, hr, -⟩ := h.type ht
    exact ⟨id', hr⟩
  right hu := by
    obtain ⟨t, ht, -⟩ := typeAt?_link_eq_some.1 hu
    obtain ⟨id, -, hr, -⟩ := h.symm.type ht
    exact ⟨id, hr.symm⟩

theorem typeNamed?_link (name : String) :
    Option.Rel (correspondence d d' fs gs).types (d.link.typeNamed? name) (d'.link.typeNamed? name) := by
  rw [typeNamed?_link_eq, typeNamed?_link_eq]
  exact h.typeNamed? name

theorem methods_link :
    OneToOne (correspondence d d' fs gs).methods (MethodDecl.Matches (correspondence d d' fs gs))
      (fun id => d.methods[id.index]?) fun id => d'.methods[id.index]? where
  unique := h.methods_biUnique
  related hr := by
    obtain ⟨m, m', hm, hm', heq⟩ := related_methods hr
    have mem : m ∈ d.methods.toList := List.mem_of_getElem? (by rw [Array.getElem?_toList, hm])
    have mem' : m' ∈ d'.methods.toList := List.mem_of_getElem? (by rw [Array.getElem?_toList, hm'])
    have decl : ({ m with owner := ⟨0⟩ } : MethodDecl) = { m' with owner := ⟨0⟩ } := congrArg (·.decl) heq
    have body : Option.Rel (List.Forall₂ (Expr.Matches (correspondence d d' fs gs))) m.body m'.body := by
      rw [h.left.coherent.withoutCode m mem, h.right.coherent.withoutCode m' mem']
      exact .none
    have nameSpan : m.nameSpan = m'.nameSpan := congrArg (·.nameSpan) decl
    have span : m.span = m'.span := congrArg (·.span) decl
    exact ⟨m, m', hm, hm', congrArg (·.name) decl, h.methodOwner mem mem' heq, congrArg (·.parameterCount) decl,
      congrArg (·.varargs) decl, congrArg (·.isPublic) decl, congrArg (·.isAbstract) decl,
      congrArg (·.annotations) decl, body, nameSpan, span⟩
  left hm := by
    obtain ⟨id', -, hr, -⟩ := h.method hm
    exact ⟨id', hr⟩
  right hm := by
    obtain ⟨id, -, hr, -⟩ := h.symm.method hm
    exact ⟨id, hr.symm⟩

omit h in
/-- a field with its type -/
theorem field_link (hc : d.Coherent fs) (id : VariableId) :
    d.link.fields[id.index]? = fs[id.index]?.map fun f => { f.decl with declaredType := d.names.resolve? f.type } := by
  have fields := congrArg (·[id.index]?) hc.fields
  have types := congrArg (·[id.index]?) hc.fieldTypes
  simp only [Array.getElem?_toList, List.getElem?_map] at fields types
  rw [link, Array.getElem?_mapIdx, fields, types]
  cases fs[id.index]? <;> rfl

theorem fields_link :
    OneToOne (correspondence d d' fs gs).vars (VariableDecl.Matches (correspondence d d' fs gs))
      (fun id => d.link.fields[id.index]?) fun id => d'.link.fields[id.index]? where
  unique := h.fields_biUnique
  related {i j} hr := by
    obtain ⟨f, g, hf, hg, heq⟩ := related_fields hr
    have decl : f.decl = g.decl := congrArg (·.decl) heq
    have type : f.type = g.type := congrArg (·.type) heq
    have declaredType : d.names.resolve? f.type = d'.names.resolve? g.type := by rw [type, h.resolve?]
    have initializer : Option.Rel (Expr.Matches (correspondence d d' fs gs)) f.decl.initializer g.decl.initializer := by
      rw [h.left.coherent.uninitialized f (List.mem_of_getElem? hf),
        h.right.coherent.uninitialized g (List.mem_of_getElem? hg)]
      exact .none
    have span : f.decl.span = g.decl.span := congrArg (·.span) decl
    have left := field_link h.left.coherent i
    have right := field_link h.right.coherent j
    rw [hf, Option.map_some] at left
    rw [hg, Option.map_some] at right
    exact ⟨_, _, left, right, congrArg (·.name) decl, congrArg (·.kind) decl, declaredType, congrArg (·.isFinal) decl,
      initializer, span⟩
  left hv := by
    rw [field_link h.left.coherent] at hv
    obtain ⟨f, hf, -⟩ := Option.map_eq_some_iff.1 hv
    obtain ⟨id', -, hr, -⟩ := h.field hf
    exact ⟨id', hr⟩
  right hv := by
    rw [field_link h.right.coherent] at hv
    obtain ⟨g, hg, -⟩ := Option.map_eq_some_iff.1 hv
    obtain ⟨id, -, hr, -⟩ := h.symm.field hg
    exact ⟨id, hr.symm⟩

/-- **Declarations with the same items match once they are linked.** -/
theorem link_matches {s : Source} (hn : ∀ b ∈ d.bodies.toList, b.node.Shaped) :
    Declarations.Matches (correspondence d d' fs gs) s s d.link d'.link where
  resolve := h.resolve?
  staticOwner member := by
    rw [NameTable.staticOwner?, NameTable.staticOwner?, link, link, h.table]
  types := h.types_link
  typeNamed := h.typeNamed?_link
  field hid name := h.lookup_field hid name
  method hid name arguments := h.ownMethod? hid name arguments
  methods := h.methods_link
  fields := h.fields_link
  bodies := h.bodies_alike hn

end SameItems

end Declarations

end CallLint
