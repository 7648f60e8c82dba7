/-
Superclasses in a file. They may come back to a type: then `Declarations.hierarchy` stops, while a walk that only counts
its steps goes round. Both pass the same types (`mem_hierarchy_iff`) and find the same one first
(`findSome?_hierarchy`): a walk that has seen as many types as there are has seen them all.
-/
import CallLint.Source.Declarations
import Mathlib.Data.List.Chain
import Mathlib.Data.List.Nodup
import Mathlib.Data.List.Perm.Subperm

namespace CallLint

/-- the superclasses of the first type lead to the second one, or they are the same -/
inductive Inherits (types : Array TypeDecl) : TypeId → TypeId → Prop
  | self (id : TypeId) : Inherits types id id
  | superclass {id e above : TypeId} {t : TypeDecl} :
    types[id.index]? = some t → t.superclassId = some e → Inherits types e above → Inherits types id above

/-- the second type is the superclass of the first one -/
def IsSuperclass (types : Array TypeDecl) (id above : TypeId) : Prop :=
  ∃ t, types[id.index]? = some t ∧ t.superclassId = some above

namespace Declarations

variable {d : Declarations} {id above : TypeId} {t : TypeDecl} {seen : List TypeId}

/-! ## Walks of so many steps -/

/-- what is found first on a chain is found at the type or further on -/
theorem findSome?_follow {α : Type} {next : TypeDecl → Option TypeId} {f : TypeId → Option α}
    (ht : d.typeAt? id = some t) (steps : Nat) :
    (d.follow next (steps + 1) id).findSome? f =
      (f id).or ((next t).bind fun e => (d.follow next steps e).findSome? f) := by
  rw [follow, ht]
  dsimp only
  cases next t <;> cases hf : f id <;> simp [hf]

/-- a walk passes only types of the file, all of them inherited -/
theorem mem_follow {steps : Nat} (h : above ∈ d.follow (·.superclassId) steps id) :
    Inherits d.types id above ∧ above.index < d.types.size := by
  induction steps generalizing id with
  | zero => cases h
  | succ steps ih =>
    rw [follow] at h
    cases ht : d.typeAt? id with
    | none => simp [ht] at h
    | some t =>
      have inside : id.index < d.types.size := (Array.getElem?_eq_some_iff.1 ht).1
      rw [ht] at h
      dsimp only at h
      cases he : t.superclassId with
      | none =>
        rw [he] at h
        obtain rfl := List.mem_singleton.1 h
        exact ⟨.self above, inside⟩
      | some e =>
        rw [he] at h
        rcases List.mem_cons.1 h with rfl | h
        · exact ⟨.self above, inside⟩
        · exact (ih h).imp_left (.superclass ht he)

/-- a superclass is passed by each walk that is long enough -/
theorem mem_follow_of_inherits (h : Inherits d.types id above) (hin : above.index < d.types.size) :
    ∃ enough, ∀ steps, enough ≤ steps → above ∈ d.follow (·.superclassId) steps id := by
  induction h with
  | self id =>
    refine ⟨1, fun steps hsteps => ?_⟩
    obtain ⟨steps, rfl⟩ := Nat.exists_eq_add_of_le' hsteps
    rw [follow, show d.typeAt? id = some d.types[id.index] from Array.getElem?_eq_getElem hin]
    dsimp only
    cases d.types[id.index].superclassId <;> simp
  | @superclass id e above t ht he _ ih =>
    obtain ⟨enough, hwalk⟩ := ih hin
    refine ⟨enough + 1, fun steps hsteps => ?_⟩
    obtain ⟨steps, rfl⟩ := Nat.exists_eq_add_of_le' (Nat.le_of_add_left_le hsteps)
    rw [follow, show d.typeAt? id = some t from ht]
    dsimp only
    rw [he]
    exact List.mem_cons_of_mem id (hwalk steps (by omega))

/-! ## The walk that stops at types it has seen -/

/-- what a walk over superclasses has seen when it comes to a type -/
structure Visited (d : Declarations) (seen : List TypeId) (id : TypeId) : Prop where
  nodup : seen.Nodup
  inside : ∀ u ∈ seen, u.index < d.types.size
  closed : ∀ u ∈ seen, ∀ e, IsSuperclass d.types u e → e ∈ id :: seen

namespace Visited

theorem start (d : Declarations) (id : TypeId) : d.Visited [] id :=
  ⟨List.nodup_nil, nofun, nofun⟩

theorem step (h : d.Visited seen id) (hid : id ∉ seen) {e : TypeId} (ht : d.typeAt? id = some t)
    (he : t.superclassId = some e) : d.Visited (id :: seen) e where
  nodup := List.nodup_cons.2 ⟨hid, h.nodup⟩
  inside := List.forall_mem_cons.2 ⟨(Array.getElem?_eq_some_iff.1 ht).1, h.inside⟩
  closed := by
    intro u hu e' hlink
    rcases List.mem_cons.1 hu with rfl | hu
    · obtain ⟨t', ht', he'⟩ := hlink
      obtain rfl := Option.some.inj (ht.symm.trans ht')
      obtain rfl := Option.some.inj (he.symm.trans he')
      exact List.mem_cons_self
    · exact List.mem_cons_of_mem e (h.closed u hu e' hlink)

/-- from a type that comes again, the walk leads nowhere else -/
theorem inherited (h : d.Visited seen id) (hid : id ∈ seen) (habove : Inherits d.types id above) : above ∈ seen := by
  have closed : ∀ u ∈ seen, ∀ e, IsSuperclass d.types u e → e ∈ seen := fun u hu e he =>
    (List.mem_cons.1 (h.closed u hu e he)).elim (fun heq => heq ▸ hid) fun hmem => hmem
  clear h
  induction habove with
  | self id => exact hid
  | superclass ht he _ ih => exact ih (closed _ hid _ ⟨_, ht, he⟩)

/-- when as many types are seen as there are, all are -/
theorem full (h : d.Visited seen id) (hsize : d.types.size ≤ seen.length) (habove : above.index < d.types.size) :
    above ∈ seen := by
  have inside : seen ⊆ (List.range d.types.size).map TypeId.mk := fun u hu =>
    List.mem_map.2 ⟨u.index, List.mem_range.2 (h.inside u hu), rfl⟩
  have all := (List.subperm_of_subset h.nodup inside).perm_of_length_le (by simpa using hsize)
  exact all.mem_iff.2 (List.mem_map.2 ⟨above.index, List.mem_range.2 habove, rfl⟩)

end Visited

/-- **The walk that stops at types it has seen finds what any long walk finds first.** -/
theorem findSome?_hierarchyFrom {α : Type} {f : TypeId → Option α} {steps more : Nat} (h : d.Visited seen id)
    (hsize : d.types.size ≤ seen.length + steps) (hmore : steps ≤ more) (hseen : ∀ u ∈ seen, f u = none) :
    (d.hierarchyFrom steps seen id).findSome? f = (d.follow (·.superclassId) more id).findSome? f := by
  induction steps generalizing more seen id with
  | zero =>
    refine (List.findSome?_eq_none_iff.2 fun above habove => ?_).symm
    exact hseen above (h.full hsize (mem_follow habove).2)
  | succ steps ih =>
    obtain ⟨more, rfl⟩ := Nat.exists_eq_add_of_le' (Nat.le_of_add_left_le hmore)
    rw [hierarchyFrom]
    by_cases hid : id ∈ seen
    · rw [if_pos (List.contains_iff_mem.2 hid)]
      refine (List.findSome?_eq_none_iff.2 fun above habove => ?_).symm
      exact hseen above (h.inherited hid (mem_follow habove).1)
    · rw [if_neg (by simpa using hid)]
      cases ht : d.typeAt? id with
      | none => simp [follow, ht]
      | some t =>
        rw [findSome?_follow ht]
        dsimp only
        cases he : t.superclassId with
        | none => cases hf : f id <;> simp [hf]
        | some e =>
          cases hf : f id with
          | some a => simp [hf]
          | none =>
            have rest := ih (h.step hid ht he) (by rw [List.length_cons]; omega) (Nat.le_of_succ_le_succ hmore)
              (List.forall_mem_cons.2 ⟨hf, hseen⟩)
            simpa [hf] using rest

/-- what is found first in the hierarchy of a type is what any walk finds that is long enough -/
theorem findSome?_hierarchy {α : Type} (f : TypeId → Option α) {steps : Nat} (h : d.types.size ≤ steps) :
    (d.hierarchy id).findSome? f = (d.follow (·.superclassId) steps id).findSome? f :=
  findSome?_hierarchyFrom (.start d id) (by simp) h nofun

theorem mem_hierarchy_iff_mem_follow {steps : Nat} (h : d.types.size ≤ steps) :
    above ∈ d.hierarchy id ↔ above ∈ d.follow (·.superclassId) steps id := by
  have found (l : List TypeId) : (l.findSome? fun u => if u = above then some () else none).isSome ↔ above ∈ l := by
    simp [List.findSome?_isSome_iff]
  rw [← found, ← found, findSome?_hierarchy _ h]

/-- **The hierarchy of a type has the types that it inherits**, as far as they are there. -/
theorem mem_hierarchy_iff : above ∈ d.hierarchy id ↔ Inherits d.types id above ∧ above.index < d.types.size := by
  constructor
  · intro h
    exact mem_follow ((mem_hierarchy_iff_mem_follow le_rfl).1 h)
  · rintro ⟨hinherits, hin⟩
    obtain ⟨enough, hwalk⟩ := mem_follow_of_inherits hinherits hin
    exact (mem_hierarchy_iff_mem_follow (le_max_left _ enough)).2 (hwalk _ (le_max_right _ _))

/-! ## Each type once, in order -/

theorem hierarchyFrom_nodup {steps : Nat} :
    (d.hierarchyFrom steps seen id).Nodup ∧ ∀ u ∈ d.hierarchyFrom steps seen id, u ∉ seen := by
  induction steps generalizing seen id with
  | zero => exact ⟨List.nodup_nil, nofun⟩
  | succ steps ih =>
    rw [hierarchyFrom]
    split
    · exact ⟨List.nodup_nil, nofun⟩
    · rename_i hid
      have fresh : id ∉ seen := by simpa using hid
      cases d.typeAt? id with
      | none => exact ⟨List.nodup_nil, nofun⟩
      | some t =>
        dsimp only
        cases t.superclassId with
        | none => exact ⟨List.nodup_singleton id, List.forall_mem_singleton.2 fresh⟩
        | some e =>
          obtain ⟨hnodup, hunseen⟩ := @ih e (id :: seen)
          refine ⟨List.nodup_cons.2 ⟨fun hmem => hunseen id hmem List.mem_cons_self, hnodup⟩, ?_⟩
          exact List.forall_mem_cons.2 ⟨fresh, fun u hu hseen => hunseen u hu (List.mem_cons_of_mem id hseen)⟩

/-- no type comes twice, also where types inherit from each other in a circle -/
theorem hierarchy_nodup (d : Declarations) (id : TypeId) : (d.hierarchy id).Nodup :=
  hierarchyFrom_nodup.1

theorem hierarchyFrom_head {steps : Nat} {u : TypeId} (h : (d.hierarchyFrom steps seen id).head? = some u) : u = id := by
  cases steps with
  | zero => cases h
  | succ steps =>
    rw [hierarchyFrom] at h
    split at h
    · cases h
    · cases ht : d.typeAt? id with
      | none => simp [ht] at h
      | some t => cases he : t.superclassId <;> simp_all

/-- each type is followed by its superclass -/
theorem hierarchyFrom_isChain {steps : Nat} : (d.hierarchyFrom steps seen id).IsChain (IsSuperclass d.types) := by
  induction steps generalizing seen id with
  | zero => exact .nil
  | succ steps ih =>
    rw [hierarchyFrom]
    split
    · exact .nil
    · cases ht : d.typeAt? id with
      | none => exact .nil
      | some t =>
        dsimp only
        cases he : t.superclassId with
        | none => exact .singleton id
        | some e =>
          refine List.isChain_cons.2 ⟨fun u hu => ?_, ih⟩
          obtain rfl := hierarchyFrom_head hu
          exact ⟨t, ht, he⟩

/-- a type comes first in its hierarchy -/
theorem hierarchy_head (h : id.index < d.types.size) : (d.hierarchy id).head? = some id := by
  have hmem := mem_hierarchy_iff.2 ⟨.self id, h⟩
  cases hhead : (d.hierarchy id).head? with
  | none => simp [List.head?_eq_none_iff.1 hhead] at hmem
  | some u => rw [hierarchyFrom_head hhead]

end Declarations
end CallLint
