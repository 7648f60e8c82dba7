/-
The field that a name means where no variable is in force: that of the type around the code, or the nearest type around
it, that has a field of the name, be it from a superclass in the file (`Declarations.Outward`). Lookup walks chains of
types that are cut off after so many steps; the steps are enough (`Sound.outward_iff`), for ids descend to enclosing types,
and a chain of superclasses that comes back to a type finds nothing new.
-/
import CallLint.Proofs.Inheritance.Hierarchy
import CallLint.Proofs.References.Declared

namespace CallLint

namespace Declarations

/-- the field of a name that a type has: its own, or that of the nearest superclass in the file that declares one -/
inductive Sees (d : Declarations) (name : String) : TypeId → VariableId → Prop
  | own {t : TypeId} {id : VariableId} : (d.membersOf t).fields.lookup name = some id → Sees d name t id
  | inherited {t t' : TypeId} {decl : TypeDecl} {id : VariableId} :
    (d.membersOf t).fields.lookup name = none → d.typeAt? t = some decl → decl.superclassId = some t' →
      Sees d name t' id → Sees d name t id

/-- the field of a name that the innermost of a type and the types around it has -/
inductive Outward (d : Declarations) (name : String) : TypeId → VariableId → Prop
  | here {t : TypeId} {id : VariableId} : d.Sees name t id → Outward d name t id
  | out {t t' : TypeId} {decl : TypeDecl} {id : VariableId} :
    (∀ id, ¬ d.Sees name t id) → d.typeAt? t = some decl → decl.enclosing = some t' → Outward d name t' id →
      Outward d name t id

variable {d : Declarations} {name : String} {t : TypeId} {id : VariableId}

/-! ## Superclasses -/

/-- the same after so many superclasses -/
inductive SeesAfter (d : Declarations) (name : String) : Nat → TypeId → VariableId → Prop
  | own {t : TypeId} {id : VariableId} : (d.membersOf t).fields.lookup name = some id → SeesAfter d name 0 t id
  | inherited {steps : Nat} {t t' : TypeId} {decl : TypeDecl} {id : VariableId} :
    (d.membersOf t).fields.lookup name = none → d.typeAt? t = some decl → decl.superclassId = some t' →
      SeesAfter d name steps t' id → SeesAfter d name (steps + 1) t id

theorem Sees.after (h : d.Sees name t id) : ∃ steps, d.SeesAfter name steps t id := by
  induction h with
  | own hown => exact ⟨0, .own hown⟩
  | inherited hown ht hs _ ih =>
    obtain ⟨steps, hsteps⟩ := ih
    exact ⟨steps + 1, .inherited hown ht hs hsteps⟩

theorem SeesAfter.unique {steps steps' : Nat} {id' : VariableId} (h : d.SeesAfter name steps t id)
    (h' : d.SeesAfter name steps' t id') : steps = steps' := by
  induction h generalizing steps' with
  | own hown =>
    cases h' with
    | own _ => rfl
    | inherited hnone _ _ _ => simp [hown] at hnone
  | inherited hnone ht hs _ ih =>
    cases h' with
    | own hown => simp [hown] at hnone
    | inherited _ ht' hs' h' =>
      obtain rfl := Option.some.inj (ht.symm.trans ht')
      obtain rfl := Option.some.inj (hs.symm.trans hs')
      exact congrArg Nat.succ (ih h')

/-- a type that declares a field is there -/
theorem exists_typeAt?_of_lookup (hm : d.members.size = d.types.size)
    (h : (d.membersOf t).fields.lookup name = some id) : ∃ decl, d.typeAt? t = some decl := by
  refine exists_typeAt? ?_
  by_contra hlt
  rw [membersOf, Array.getElem?_eq_none (by omega)] at h
  simp at h

/-- no type comes twice on the way to a field: from each of them the way has another length -/
theorem SeesAfter.path (hm : d.members.size = d.types.size) {steps : Nat} (h : d.SeesAfter name steps t id) :
    ∃ path : List TypeId, path.length = steps + 1 ∧ path.Nodup ∧
      ∀ u ∈ path, u.index < d.types.size ∧ ∃ fewer ≤ steps, d.SeesAfter name fewer u id := by
  induction h with
  | @own t id hown =>
    obtain ⟨decl, ht⟩ := exists_typeAt?_of_lookup hm hown
    refine ⟨[t], rfl, List.nodup_singleton _, fun u hu => ?_⟩
    obtain rfl := List.mem_singleton.1 hu
    exact ⟨(Array.getElem?_eq_some_iff.1 ht).1, 0, le_rfl, .own hown⟩
  | @inherited steps t t' decl id hnone ht hs hrest ih =>
    have here := SeesAfter.inherited hnone ht hs hrest
    obtain ⟨path, hlen, hnodup, hpath⟩ := ih
    refine ⟨t :: path, congrArg Nat.succ hlen, List.nodup_cons.2 ⟨fun hmem => ?_, hnodup⟩, fun u hu => ?_⟩
    · obtain ⟨-, fewer, hle, hfewer⟩ := hpath t hmem
      have := here.unique hfewer
      omega
    · rcases List.mem_cons.1 hu with rfl | hu
      · exact ⟨(Array.getElem?_eq_some_iff.1 ht).1, _, le_rfl, here⟩
      · obtain ⟨hlt, fewer, hle, hfewer⟩ := hpath u hu
        exact ⟨hlt, fewer, hle.trans (Nat.le_succ _), hfewer⟩

/-- fewer superclasses lead to a field than there are types -/
theorem SeesAfter.lt (hm : d.members.size = d.types.size) {steps : Nat} (h : d.SeesAfter name steps t id) :
    steps < d.types.size := by
  obtain ⟨path, hlen, hnodup, hpath⟩ := h.path hm
  have indices : (path.map TypeId.index).Nodup := hnodup.map fun a b hab => by
    cases a
    cases b
    exact congrArg TypeId.mk hab
  have inside : path.map TypeId.index ⊆ List.range d.types.size := by
    intro i hi
    obtain ⟨u, hu, rfl⟩ := List.mem_map.1 hi
    exact List.mem_range.2 (hpath u hu).1
  have fits := (List.subperm_of_subset indices inside).length_le
  simpa [hlen] using fits

/-- the walk over a type and its superclasses finds what so many steps lead to -/
theorem SeesAfter.found (hm : d.members.size = d.types.size) {steps limit : Nat} (h : d.SeesAfter name steps t id)
    (hlt : steps < limit) :
    (d.follow (·.superclassId) limit t).findSome? (fun u => (d.membersOf u).fields.lookup name) = some id := by
  obtain ⟨limit, rfl⟩ := Nat.exists_eq_succ_of_ne_zero (Nat.ne_zero_of_lt hlt)
  induction h generalizing limit with
  | own hown =>
    obtain ⟨decl, ht⟩ := exists_typeAt?_of_lookup hm hown
    rw [findSome?_follow ht, hown, Option.some_or]
  | inherited hnone ht hs _ ih =>
    obtain ⟨limit, rfl⟩ := Nat.exists_eq_succ_of_ne_zero (by omega : limit ≠ 0)
    rw [findSome?_follow ht, hnone, Option.none_or, hs]
    exact ih limit (by omega)

theorem sees_of_follow {limit : Nat}
    (h : (d.follow (·.superclassId) limit t).findSome? (fun u => (d.membersOf u).fields.lookup name) = some id) :
    d.Sees name t id := by
  induction limit generalizing t with
  | zero => cases h
  | succ limit ih =>
    cases ht : d.typeAt? t with
    | none => simp [follow, ht] at h
    | some decl =>
      rw [findSome?_follow ht, Option.or_eq_some_iff] at h
      rcases h with hown | ⟨hnone, h⟩
      · exact .own hown
      · obtain ⟨t', hs, h⟩ := Option.bind_eq_some_iff.1 h
        exact .inherited hnone ht hs (ih h)

/-- **A type has the field that the walk finds**, even when superclasses form a cycle. -/
theorem Sound.sees_iff (h : d.Sound) : d.fieldIn? t name = some id ↔ d.Sees name t id := by
  rw [Declarations.fieldIn?, findSome?_hierarchy _ le_rfl]
  constructor
  · exact sees_of_follow
  · intro hsees
    obtain ⟨steps, hsteps⟩ := hsees.after
    exact hsteps.found h.members (hsteps.lt h.members)

/-! ## Enclosing types -/

theorem Sound.not_sees (h : d.Sound) (hnone : d.fieldIn? t name = none) (id : VariableId) : ¬ d.Sees name t id := by
  intro hsees
  rw [h.sees_iff.2 hsees] at hnone
  cases hnone

theorem Sound.outward_of_follow (h : d.Sound) {limit : Nat}
    (hf : (d.follow (·.enclosing) limit t).findSome? (fun u => d.fieldIn? u name) = some id) : d.Outward name t id := by
  induction limit generalizing t with
  | zero => cases hf
  | succ limit ih =>
    cases ht : d.typeAt? t with
    | none => simp [follow, ht] at hf
    | some decl =>
      rw [findSome?_follow ht, Option.or_eq_some_iff] at hf
      rcases hf with hown | ⟨hnone, hf⟩
      · exact .here (h.sees_iff.1 hown)
      · obtain ⟨t', he, hf⟩ := Option.bind_eq_some_iff.1 hf
        exact .out (h.not_sees hnone) ht he (ih hf)

/-- enclosing types come before a type, so as many steps as its index says are enough -/
theorem Sound.found_of_outward (h : d.Sound) (ht : t.index < d.types.size) (ho : d.Outward name t id) {limit : Nat}
    (hlt : t.index < limit) :
    (d.follow (·.enclosing) limit t).findSome? (fun u => d.fieldIn? u name) = some id := by
  obtain ⟨limit, rfl⟩ := Nat.exists_eq_succ_of_ne_zero (Nat.ne_zero_of_lt hlt)
  induction ho generalizing limit with
  | here hsees =>
    obtain ⟨decl, ht⟩ := exists_typeAt? ht
    rw [findSome?_follow ht, h.sees_iff.2 hsees, Option.some_or]
  | @out t t' decl id hnone hdecl he _ ih =>
    have hfield : d.fieldIn? t name = none := by
      rw [Option.eq_none_iff_forall_ne_some]
      exact fun id hid => hnone id (h.sees_iff.1 hid)
    have before := h.enclosing t.index decl hdecl t' he
    obtain ⟨limit, rfl⟩ := Nat.exists_eq_succ_of_ne_zero (by omega : limit ≠ 0)
    rw [findSome?_follow hdecl, hfield, Option.none_or, he]
    exact ih (before.trans ht) limit (by omega)

/-- **The field that a name means outside of all variables** is the one that the walk over the types finds. -/
theorem Sound.outward_iff (h : d.Sound) (ht : t.index < d.types.size) :
    (d.enclosingChain t).findSome? (fun u => d.fieldIn? u name) = some id ↔ d.Outward name t id :=
  ⟨h.outward_of_follow, fun ho => h.found_of_outward ht ho ht⟩

/-- a field that a name means is one of the file and has that name -/
theorem Sound.outward_named (h : d.Sound) (ho : d.Outward name t id) : FieldNamed d.fields name id := by
  induction ho with
  | here hsees => exact h.fieldIn? (h.sees_iff.2 hsees)
  | out _ _ _ _ ih => exact ih

end Declarations

end CallLint
