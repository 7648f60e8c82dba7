/-
What the declarations of a file are drawn from. Bodies are nodes of the tree, and superclasses and the types of fields
are texts that are written there (`Drawn`); each step of the collection keeps that. Links resolve these texts with the
names of the whole file, and `Declarations.ofFile_stated` says what types, fields and methods are in the end.
-/
import CallLint.Proofs.Owners.Lowered
import CallLint.Proofs.References.Declared

namespace CallLint

/-- the texts of types, of names and of names joined by points that the tree writes -/
inductive Source.Writes (s : Source) (root : Node) : String → Prop
  | type {n m : Node} : n ∈ root.within → n.child? .type = some m → Writes s root (s.textOf m)
  | parameter {n : Node} {p : Parameter} : n ∈ root.within → p ∈ s.parametersOf n → Writes s root p.type
  | superclass {n : Node} {written : String} :
    n ∈ root.within → Declarations.superclassText? s n = some written → Writes s root written
  | name {n : Node} {chain : String} : n ∈ root.within → s.nameChain? n = some chain → Writes s root chain

namespace Declarations

/-- the tree has the bodies, and writes the superclasses and the types of fields -/
structure Drawn (s : Source) (root : Node) (d : Declarations) : Prop where
  bodies : ∀ b ∈ d.bodies, b.node ∈ root.within
  superclasses : ∀ t ∈ d.types, ∀ written, t.superclass = some written →
    ∃ n ∈ root.within, superclassText? s n = some written
  fieldTypes : ∀ type ∈ d.fieldTypes, type = "" ∨ s.Writes root type

variable {s : Source} {root : Node} {d : Declarations}

theorem ofNames_drawn (s : Source) (root : Node) (names : NameTable) : (ofNames names).Drawn s root := by
  constructor <;> simp [ofNames]

theorem Drawn.keptBySteps (s : Source) (root : Node) : KeptBySteps s (· ∈ root.within) (Drawn s root) where
  child := Node.within_child
  body {d b} h hb _ := by
    refine { h with bodies := fun c hc => ?_ }
    rcases Array.mem_push.1 hc with hc | rfl
    · exact h.bodies c hc
    · exact hb.node Node.within_child
  field {d type owner} h htype _ name isFinal span := by
    refine ⟨h.bodies, h.superclasses, fun written hmem => ?_⟩
    rcases Array.mem_push.1 hmem with hmem | rfl
    · exact h.fieldTypes written hmem
    · cases htype with
      | none => exact .inl rfl
      | type hn hm => exact .inr (.type hn hm)
      | parameter hn hp => exact .inr (.parameter hn hp)
  method h _ _ := ⟨h.bodies, h.superclasses, h.fieldTypes⟩
  type {d n name enclosing} h hn _ _ _ := by
    refine ⟨h.bodies, fun u hu => ?_, h.fieldTypes⟩
    rcases Array.mem_push.1 hu with hu | rfl
    · exact h.superclasses u hu
    · exact fun written hw => ⟨n, hn, hw⟩

/-! ## Links -/

/-- what links make of what is written: resolved superclasses and types of fields -/
structure Stated (s : Source) (root : Node) (d : Declarations) : Prop where
  bodies : ∀ b ∈ d.bodies, b.node ∈ root.within
  superclasses : ∀ t ∈ d.types, ∀ name, t.superclass = some name →
    ∃ n ∈ root.within, ∃ written, superclassText? s n = some written ∧ name = d.names.resolveOrErase written
  fields : ∀ v ∈ d.fields, ∀ o, v.declaredType = some o →
    ∃ written, s.Writes root written ∧ d.names.resolve? written = some o
  methods : ∀ t id, id ∈ (d.membersOf t).methods → ∃ m, d.methods[id.index]? = some m ∧ m.owner = t

/-- nothing is named by an empty text -/
theorem resolve?_empty (names : NameTable) : names.resolve? "" = none :=
  rfl

theorem Drawn.link (h : d.Drawn s root) {fs : List OwnedField} (hc : d.Coherent fs) : d.link.Stated s root where
  bodies := h.bodies
  superclasses t ht name hname := by
    obtain ⟨i, hi⟩ := Array.mem_iff_getElem?.1 ht
    obtain ⟨u, hu, rfl⟩ := (@typeAt?_link_eq_some d ⟨i⟩ t).1 hi
    rw [linkType] at hname
    cases hs : u.superclass with
    | none => simp [hs] at hname
    | some written =>
      rw [hs] at hname
      obtain ⟨n, hn, hwritten⟩ := h.superclasses u (Array.mem_of_getElem? hu) written hs
      exact ⟨n, hn, written, hwritten, (Option.some.inj hname).symm⟩
  fields v hv o ho := by
    obtain ⟨i, hi⟩ := Array.mem_iff_getElem?.1 hv
    rw [Declarations.link, Array.getElem?_mapIdx] at hi
    obtain ⟨u, -, rfl⟩ := Option.map_eq_some_iff.1 hi
    obtain ⟨type, htype, hresolve⟩ := Option.bind_eq_some_iff.1 ho
    rcases h.fieldTypes type (Array.mem_of_getElem? htype) with rfl | hwrites
    · rw [resolve?_empty] at hresolve
      cases hresolve
    · exact ⟨type, hwrites, hresolve⟩
  methods t id := (hc.methodMembers t id).1

/-- **The declarations of a file are stated in its tree.** -/
theorem ofFile_stated (s : Source) {names : NameTable} (hn : names.declared = []) (root : Node) :
    (ofFile s names root).Stated s root := by
  obtain ⟨fs, hc⟩ := collectAll_coherent s hn root.children
  have children : ∀ n ∈ root.children, n ∈ root.within := fun n hmem => Node.within_child root.mem_within_self hmem
  exact ((Drawn.keptBySteps s root).collected children (ofNames_drawn s root names)).link hc

/-- only the types of the file are added to what names mean -/
theorem ofFile_names (s : Source) {names : NameTable} (hn : names.declared = []) (root : Node) :
    (ofFile s names root).names =
      { names with declared := (ofFile s names root).types.toList.map fun t => (t.name, t.binaryName) } := by
  obtain ⟨fs, hc⟩ := collectAll_coherent s hn root.children
  let d := Declarations.collectAll s none root.children (ofNames names)
  have kept : d.names = { names with declared := d.names.declared } :=
    (collectAll_adds s names root.children (ofNames names) none none rfl .none).names
  have types : d.link.types.toList.map (fun t => (t.name, t.binaryName)) =
      d.types.toList.map fun t => (t.name, t.binaryName) :=
    d.map_link fun i t => Prod.ext (d.linkType_name i t) (d.linkType_binaryName i t)
  change d.names = { names with declared := d.link.types.toList.map fun t => (t.name, t.binaryName) }
  rw [kept, types, hc.declared]

end Declarations

end CallLint
