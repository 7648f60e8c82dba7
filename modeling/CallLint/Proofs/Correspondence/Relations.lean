/-
Lists and tables whose items are related one to one. `PermRel` relates lists in any order; `OneToOne` relates the indices
of two tables. The indices of tables that are one to one form lists that are related in any order
(`OneToOne.exists_forall₂`), and two lists sorted by keys are related in order when their keys are (`forall₂_of_sorted`).
-/
import Mathlib.Data.List.Forall2
import Mathlib.Data.List.Perm.Basic
import Mathlib.Logic.Relator
import Mathlib.Tactic

namespace CallLint

theorem optionRel_mono {α β : Type} {r s : α → β → Prop} (h : ∀ a b, r a b → s a b) {a : Option α} {b : Option β}
    (hr : Option.Rel r a b) : Option.Rel s a b := by
  cases hr with
  | some h' => exact .some (h _ _ h')
  | none => exact .none

theorem optionRel_map {α β γ δ : Type} {r : α → β → Prop} {s : γ → δ → Prop} {f : α → γ} {g : β → δ}
    (h : ∀ a b, r a b → s (f a) (g b)) {a : Option α} {b : Option β} (hr : Option.Rel r a b) :
    Option.Rel s (a.map f) (b.map g) := by
  cases hr with
  | some h' => exact .some (h _ _ h')
  | none => exact .none

theorem optionRel_bind {α β γ δ : Type} {r : α → β → Prop} {s : γ → δ → Prop} {f : α → Option γ} {g : β → Option δ}
    (h : ∀ a b, r a b → Option.Rel s (f a) (g b)) {a : Option α} {b : Option β} (hr : Option.Rel r a b) :
    Option.Rel s (a.bind f) (b.bind g) := by
  cases hr with
  | some h' => exact h _ _ h'
  | none => exact .none

theorem optionRel_filter {α β : Type} {r : α → β → Prop} {p : α → Bool} {q : β → Bool} (h : ∀ a b, r a b → p a = q b)
    {o : Option α} {o' : Option β} (ho : Option.Rel r o o') : Option.Rel r (o.filter p) (o'.filter q) := by
  cases ho with
  | none => exact .none
  | @some a b hab =>
    rw [Option.filter_some, Option.filter_some, h a b hab]
    split_ifs
    · exact .some hab
    · exact .none

theorem optionRel_cases {α β : Type} {r : α → β → Prop} {o : Option α} {o' : Option β} (h : Option.Rel r o o') :
    (o = none ∧ o' = none) ∨ ∃ a b, o = some a ∧ o' = some b ∧ r a b := by
  cases h with
  | some h => exact Or.inr ⟨_, _, rfl, rfl, h⟩
  | none => exact Or.inl ⟨rfl, rfl⟩

theorem optionRel_some {α β : Type} {r : α → β → Prop} {o : Option α} {o' : Option β} (h : Option.Rel r o o') {a : α}
    (ha : o = some a) : ∃ b, o' = some b ∧ r a b := by
  subst ha
  cases h with
  | some hab => exact ⟨_, rfl, hab⟩

theorem optionRel_eq {α : Type} {a b : Option α} : Option.Rel (· = ·) a b ↔ a = b := by
  constructor
  · rintro (h | -)
    · exact congrArg some h
    · rfl
  · rintro rfl
    cases a with
    | none => exact .none
    | some a => exact .some rfl

/-- two lookups that find whatever has a property, when what has the one property is related to what has the other -/
theorem optionRel_of_iff {α β : Type} {r : α → β → Prop} {p : α → Prop} {q : β → Prop} {o : Option α} {o' : Option β}
    (ho : ∀ a, o = some a ↔ p a) (ho' : ∀ b, o' = some b ↔ q b) (h : ∀ a, p a → ∃ b, q b ∧ r a b)
    (h' : ∀ b, q b → ∃ a, p a) : Option.Rel r o o' := by
  cases o with
  | some a =>
    obtain ⟨b, hb, hab⟩ := h a ((ho a).1 rfl)
    rw [(ho' b).2 hb]
    exact .some hab
  | none =>
    cases o' with
    | none => exact .none
    | some b =>
      obtain ⟨a, ha⟩ := h' b ((ho' b).1 rfl)
      simpa using (ho a).2 ha

/-! ## Lookups of what is there once -/

theorem lookup_iff_mem {β : Type} {l : List (String × β)} {key : String}
    (h : ∀ a b, (key, a) ∈ l → (key, b) ∈ l → a = b) (a : β) : l.lookup key = some a ↔ (key, a) ∈ l := by
  constructor
  · intro hl
    obtain ⟨l₁, l₂, rfl, -⟩ := List.lookup_eq_some_iff.1 hl
    simp
  · intro hm
    obtain ⟨b, hb⟩ := Option.isSome_iff_exists.1 (List.lookup_isSome_iff.2 ⟨(key, a), hm, beq_self_eq_true key⟩)
    obtain ⟨l₁, l₂, hl, -⟩ := List.lookup_eq_some_iff.1 hb
    rw [hb, h a b hm (by simp [hl])]

theorem find?_iff_mem {α : Type} {l : List α} {p : α → Bool} (h : ∀ a ∈ l, ∀ b ∈ l, p a = true → p b = true → a = b)
    (a : α) : l.find? p = some a ↔ a ∈ l ∧ p a = true := by
  constructor
  · exact fun hf => ⟨List.mem_of_find?_eq_some hf, List.find?_some hf⟩
  · rintro ⟨hm, hp⟩
    obtain ⟨b, hb⟩ := Option.isSome_iff_exists.1 (List.find?_isSome.2 ⟨a, hm, hp⟩)
    rw [hb, h a hm b (List.mem_of_find?_eq_some hb) hp (List.find?_some hb)]

/-! ## Lists in the same order -/

section Forall₂

variable {α β : Type} {r : α → β → Prop} {as : List α} {bs : List β}

theorem forall₂_mem_left (h : List.Forall₂ r as bs) {a : α} (ha : a ∈ as) : ∃ b ∈ bs, r a b := by
  induction h with
  | nil => simp at ha
  | @cons c b as bs hcb _ ih =>
    rcases List.mem_cons.1 ha with rfl | ha
    · exact ⟨b, List.mem_cons_self, hcb⟩
    · obtain ⟨d, hd, had⟩ := ih ha
      exact ⟨d, List.mem_cons_of_mem _ hd, had⟩

theorem forall₂_mem_right (h : List.Forall₂ r as bs) {b : β} (hb : b ∈ bs) : ∃ a ∈ as, r a b := by
  obtain ⟨a, ha, hab⟩ := forall₂_mem_left h.flip hb
  exact ⟨a, ha, hab⟩

theorem forall₂_head? (h : List.Forall₂ r as bs) : Option.Rel r as.head? bs.head? := by
  cases h with
  | nil => exact .none
  | cons hab _ => exact .some hab

theorem forall₂_find? {p : α → Bool} {q : β → Bool} (hpq : ∀ a b, r a b → p a = q b) (h : List.Forall₂ r as bs) :
    Option.Rel r (as.find? p) (bs.find? q) := by
  induction h with
  | nil => exact .none
  | @cons a b as bs hab _ ih =>
    rw [List.find?_cons, List.find?_cons, hpq a b hab]
    cases q b with
    | true => exact .some hab
    | false => exact ih

theorem forall₂_and_map {γ : Type} {f : α → γ} {g : β → γ} (h : List.Forall₂ r as bs) (hfg : as.map f = bs.map g) :
    List.Forall₂ (fun a b => r a b ∧ f a = g b) as bs := by
  induction h with
  | nil => exact .nil
  | cons hab _ ih =>
    obtain ⟨head, tail⟩ := List.cons_eq_cons.1 hfg
    exact .cons ⟨hab, head⟩ (ih tail)

theorem exists_forall₂ (h : ∀ b ∈ bs, ∃ a, r a b) : ∃ as, List.Forall₂ r as bs := by
  induction bs with
  | nil => exact ⟨[], .nil⟩
  | cons b bs ih =>
    obtain ⟨a, ha⟩ := h b List.mem_cons_self
    obtain ⟨as, has⟩ := ih fun b hb => h b (List.mem_cons_of_mem _ hb)
    exact ⟨a :: as, .cons ha has⟩

theorem forall₂_pairs (h : List.Forall₂ r as bs) :
    ∃ l : List (α × β), l.map (·.1) = as ∧ l.map (·.2) = bs ∧ ∀ p ∈ l, r p.1 p.2 := by
  induction h with
  | nil => exact ⟨[], rfl, rfl, by simp⟩
  | @cons a b as bs hab _ ih =>
    obtain ⟨l, hl, hl', hr⟩ := ih
    exact ⟨(a, b) :: l, by rw [List.map_cons, hl], by rw [List.map_cons, hl'], List.forall_mem_cons.2 ⟨hab, hr⟩⟩

theorem forall₂_with_mem (h : List.Forall₂ r as bs) : List.Forall₂ (fun a b => a ∈ as ∧ b ∈ bs ∧ r a b) as bs := by
  obtain ⟨l, rfl, rfl, hr⟩ := forall₂_pairs h
  rw [List.forall₂_map_left_iff, List.forall₂_map_right_iff]
  exact List.forall₂_same.2 fun p hp => ⟨List.mem_map_of_mem hp, List.mem_map_of_mem hp, hr p hp⟩

theorem nodup_of_forall₂ (hr : Relator.RightUnique r) (h : List.Forall₂ r as bs) (hbs : bs.Nodup) : as.Nodup := by
  induction h with
  | nil => exact .nil
  | @cons a b as bs hab h ih =>
    obtain ⟨hb, hbs⟩ := List.nodup_cons.1 hbs
    refine List.nodup_cons.2 ⟨fun hmem => hb ?_, ih hbs⟩
    obtain ⟨b', hb', hab'⟩ := forall₂_mem_left h hmem
    exact hr hab hab' ▸ hb'

end Forall₂

/-! ## Lists in any order -/

/-- the lists hold related items, in any order -/
def PermRel {α β : Type} (r : α → β → Prop) (as : List α) (bs : List β) : Prop :=
  ∃ cs, as.Perm cs ∧ List.Forall₂ r cs bs

namespace PermRel

variable {α β γ δ : Type} {r : α → β → Prop} {s : γ → δ → Prop} {as : List α} {bs : List β}

theorem of_forall₂ (h : List.Forall₂ r as bs) : PermRel r as bs :=
  ⟨as, .refl as, h⟩

theorem mono {r' : α → β → Prop} (h : PermRel r as bs) (hr : ∀ a b, r a b → r' a b) : PermRel r' as bs := by
  obtain ⟨cs, hp, hf⟩ := h
  exact ⟨cs, hp, hf.imp hr⟩

theorem mem_left (h : PermRel r as bs) {a : α}
    (ha : a ∈ as) : ∃ b ∈ bs, r a b := by
  obtain ⟨cs, hp, hf⟩ := h
  exact forall₂_mem_left hf (hp.mem_iff.1 ha)

theorem mem_right (h : PermRel r as bs) {b : β}
    (hb : b ∈ bs) : ∃ a ∈ as, r a b := by
  obtain ⟨cs, hp, hf⟩ := h
  obtain ⟨a, ha, hab⟩ := forall₂_mem_right hf hb
  exact ⟨a, hp.mem_iff.2 ha, hab⟩

theorem with_mem (h : PermRel r as bs) : PermRel (fun a b => a ∈ as ∧ b ∈ bs ∧ r a b) as bs := by
  obtain ⟨cs, hp, hf⟩ := h
  exact ⟨cs, hp, (forall₂_with_mem hf).imp fun _ _ ⟨ha, h⟩ => ⟨hp.mem_iff.2 ha, h⟩⟩

theorem append {as' : List α} {bs' : List β} (h : PermRel r as bs) (h' : PermRel r as' bs') :
    PermRel r (as ++ as') (bs ++ bs') := by
  obtain ⟨cs, hp, hf⟩ := h
  obtain ⟨cs', hp', hf'⟩ := h'
  exact ⟨cs ++ cs', hp.append hp', List.rel_append hf hf'⟩

theorem map {f : α → γ} {g : β → δ} (h : PermRel r as bs) (hr : ∀ a b, r a b → s (f a) (g b)) :
    PermRel s (as.map f) (bs.map g) := by
  obtain ⟨cs, hp, hf⟩ := h
  exact ⟨cs.map f, hp.map f, List.rel_map (fun a b hab => hr a b hab) hf⟩

theorem filterMap {f : α → Option γ} {g : β → Option δ} (h : PermRel r as bs)
    (hr : ∀ a b, r a b → Option.Rel s (f a) (g b)) : PermRel s (as.filterMap f) (bs.filterMap g) := by
  obtain ⟨cs, hp, hf⟩ := h
  exact ⟨cs.filterMap f, hp.filterMap f, List.rel_filterMap (fun a b hab => hr a b hab) hf⟩

theorem eq {as bs : List α} (h : PermRel (· = ·) as bs) : as.Perm bs := by
  obtain ⟨cs, hp, hf⟩ := h
  rw [List.forall₂_eq_eq_eq] at hf
  exact hf ▸ hp

/-- the order of the second list may change as well -/
theorem perm_right {bs' : List β} (h : PermRel r as bs) (hp : bs.Perm bs') : PermRel r as bs' := by
  obtain ⟨cs, hcs, hf⟩ := h
  have comp : Relation.Comp (List.Forall₂ r) List.Perm cs bs' := ⟨bs, hf, hp⟩
  rw [List.forall₂_comp_perm_eq_perm_comp_forall₂] at comp
  obtain ⟨ds, hds, hf'⟩ := comp
  exact ⟨ds, hcs.trans hds, hf'⟩

theorem of_map_perm {f : α → γ} {g : β → γ} (h : (as.map f).Perm (bs.map g)) : PermRel (fun a b => f a = g b) as bs := by
  have comp : Relation.Comp (List.Forall₂ fun (c : γ) (a : α) => c = f a) List.Perm (as.map f) as :=
    ⟨as, by rw [List.forall₂_map_left_iff]; exact List.forall₂_same.2 fun _ _ => rfl, .refl as⟩
  have back : PermRel (fun (b : β) (c : γ) => g b = c) bs (bs.map g) :=
    .of_forall₂ (by rw [List.forall₂_map_right_iff]; exact List.forall₂_same.2 fun _ _ => rfl)
  obtain ⟨ds, hds, hf⟩ := back.perm_right h.symm
  rw [List.forall₂_map_right_iff] at hf
  have flipped : PermRel (fun a b => f a = g b) as ds := .of_forall₂ (hf.flip.imp fun _ _ h => h.symm)
  exact flipped.perm_right hds.symm

theorem of_map {f : α → γ} {g : β → δ} (h : PermRel s (as.map f) (bs.map g)) :
    PermRel (fun a b => s (f a) (g b)) as bs := by
  obtain ⟨cs, hp, hf⟩ := h
  obtain ⟨as', hp', hf'⟩ : PermRel (fun a c => f a = c) as cs := of_map_perm (g := id) (by rwa [List.map_id])
  obtain rfl : as'.map f = cs := by
    rw [← List.forall₂_map_left_iff, List.forall₂_eq_eq_eq] at hf'
    exact hf'
  rw [List.forall₂_map_left_iff, List.forall₂_map_right_iff] at hf
  exact ⟨as', hp', hf⟩

end PermRel

/-! ## Tables -/

/-- related indices of two tables have related entries, and each entry of one table has its partner in the other -/
structure OneToOne {ι α β : Type} (r : ι → ι → Prop) (m : α → β → Prop) (f : ι → Option α) (g : ι → Option β) :
    Prop where
  unique : Relator.BiUnique r
  related : ∀ {i j}, r i j → ∃ a b, f i = some a ∧ g j = some b ∧ m a b
  left : ∀ {i a}, f i = some a → ∃ j, r i j
  right : ∀ {j b}, g j = some b → ∃ i, r i j

/-- indices of lists at which the same stands; `ix` tells the positions of the indices -/
def SameEntry {ι α : Type} (ix : ι → Nat) (as bs : List α) (i j : ι) : Prop :=
  ∃ a, as[ix i]? = some a ∧ bs[ix j]? = some a

theorem getElem?_inj_of_nodup {α : Type} {l : List α} (h : l.Nodup) {i j : Nat} {a : α} (hi : l[i]? = some a)
    (hj : l[j]? = some a) : i = j := by
  obtain ⟨hi', rfl⟩ := List.getElem?_eq_some_iff.1 hi
  obtain ⟨hj', he⟩ := List.getElem?_eq_some_iff.1 hj
  exact (List.Nodup.getElem_inj_iff h).1 he.symm

theorem SameEntry.symm {ι α : Type} {ix : ι → Nat} {as bs : List α} {i j : ι} (h : SameEntry ix as bs i j) :
    SameEntry ix bs as j i := by
  obtain ⟨a, hi, hj⟩ := h
  exact ⟨a, hj, hi⟩

theorem sameEntry_biUnique {ι α : Type} {ix : ι → Nat} (hix : ix.Injective) {as bs : List α} (ha : as.Nodup)
    (hb : bs.Nodup) : Relator.BiUnique (SameEntry ix as bs) := by
  constructor
  · rintro i j k ⟨a, hi, hk⟩ ⟨b, hj, hk'⟩
    obtain rfl : a = b := by simpa [hk] using hk'
    exact hix (getElem?_inj_of_nodup ha hi hj)
  · rintro i j k ⟨a, hi, hj⟩ ⟨b, hi', hk⟩
    obtain rfl : a = b := by simpa [hi] using hi'
    exact hix (getElem?_inj_of_nodup hb hj hk)

/-- what stands in one of two lists with the same items stands in the other -/
theorem exists_sameEntry {ι α : Type} {ix : ι → Nat} (hix : ix.Surjective) {as bs : List α} (h : as.Perm bs) {i : ι}
    {a : α} (hi : as[ix i]? = some a) : ∃ j, bs[ix j]? = some a ∧ SameEntry ix as bs i j := by
  obtain ⟨n, hn⟩ := List.mem_iff_getElem?.1 (h.mem_iff.1 (List.mem_of_getElem? hi))
  obtain ⟨j, rfl⟩ := hix n
  exact ⟨j, hn, a, hi, hn⟩

theorem range_filterMap_getElem? {α : Type} (l : List α) : (List.range l.length).filterMap (fun i => l[i]?) = l := by
  induction l with
  | nil => rfl
  | cons a l ih =>
    have head : (a :: l)[0]? = some a := rfl
    rw [List.length_cons, List.range_succ_eq_map, List.filterMap_cons, head, List.filterMap_map]
    exact congrArg (a :: ·) ih

section Tables

variable {ι α β : Type} {r : ι → ι → Prop} {m : α → β → Prop} {f : ι → Option α} {g : ι → Option β} {xs : Array α}
  {ys : Array β} {mk : Nat → ι}

/-- all indices of tables that are one to one are related in any order -/
theorem OneToOne.permRel (h : OneToOne r m f g) {is js : List ι} (his : ∀ i, i ∈ is ↔ (f i).isSome)
    (hjs : ∀ j, j ∈ js ↔ (g j).isSome) (hi : is.Nodup) (hj : js.Nodup) : PermRel r is js := by
  obtain ⟨ks, hks⟩ : ∃ ks, List.Forall₂ r ks js := by
    refine exists_forall₂ fun j hmem => ?_
    obtain ⟨b, hb⟩ := Option.isSome_iff_exists.1 ((hjs j).1 hmem)
    exact h.right hb
  refine ⟨ks, (List.perm_ext_iff_of_nodup hi (nodup_of_forall₂ h.unique.2 hks hj)).2 fun i => ?_, hks⟩
  constructor
  · intro hmem
    obtain ⟨a, ha⟩ := Option.isSome_iff_exists.1 ((his i).1 hmem)
    obtain ⟨j, hij⟩ := h.left ha
    obtain ⟨_, b, _, hb, _⟩ := h.related hij
    obtain ⟨k, hk, hkj⟩ := forall₂_mem_right hks ((hjs j).2 (by simp [hb]))
    exact h.unique.1 hkj hij ▸ hk
  · intro hmem
    obtain ⟨j, -, hij⟩ := forall₂_mem_left hks hmem
    obtain ⟨a, _, ha, _, _⟩ := h.related hij
    exact (his i).2 (by simp [ha])

/-- the indices of an array that are looked up by `f` -/
theorem mem_indices (hmk : mk.Bijective) (hf : ∀ i, f (mk i) = xs[i]?) (i : ι) :
    i ∈ (List.range xs.size).map mk ↔ (f i).isSome := by
  obtain ⟨n, rfl⟩ := hmk.2 i
  rw [List.mem_map_of_injective hmk.1, List.mem_range, hf]
  simp

theorem OneToOne.indices (h : OneToOne r m f g) (hmk : mk.Bijective) (hf : ∀ i, f (mk i) = xs[i]?)
    (hg : ∀ i, g (mk i) = ys[i]?) : PermRel r ((List.range xs.size).map mk) ((List.range ys.size).map mk) :=
  h.permRel (mem_indices hmk hf) (mem_indices hmk hg) (List.nodup_range.map hmk.1) (List.nodup_range.map hmk.1)

theorem OneToOne.size_eq (h : OneToOne r m f g) (hmk : mk.Bijective) (hf : ∀ i, f (mk i) = xs[i]?)
    (hg : ∀ i, g (mk i) = ys[i]?) : xs.size = ys.size := by
  obtain ⟨cs, hp, hc⟩ := h.indices hmk hf hg
  simpa using hp.length_eq.trans hc.length_eq

theorem OneToOne.match_left (h : OneToOne r m f g) {i : ι} {a : α} (hi : f i = some a) : ∃ b, m a b := by
  obtain ⟨j, hij⟩ := h.left hi
  obtain ⟨a', b, ha, -, hab⟩ := h.related hij
  rw [hi] at ha
  exact Option.some.inj ha ▸ ⟨b, hab⟩

/-- the entries of tables that are one to one are related in any order -/
theorem OneToOne.toList (h : OneToOne r m f g) (hmk : mk.Bijective) (hf : ∀ i, f (mk i) = xs[i]?)
    (hg : ∀ i, g (mk i) = ys[i]?) : PermRel m xs.toList ys.toList := by
  have entries {γ : Type} {k : ι → Option γ} {zs : Array γ} (hk : ∀ i, k (mk i) = zs[i]?) :
      ((List.range zs.size).map mk).filterMap k = zs.toList := by
    rw [List.filterMap_map, ← range_filterMap_getElem? zs.toList, Array.length_toList]
    exact List.filterMap_congr fun n _ => by simp [hk]
  rw [← entries hf, ← entries hg]
  refine (h.indices hmk hf hg).filterMap fun i j hij => ?_
  obtain ⟨a, b, ha, hb, hab⟩ := h.related hij
  rw [ha, hb]
  exact .some hab

end Tables

/-! ## Sorted lists -/

/-- lists that are sorted by keys and related in any order are related in order, when the keys of the first are distinct
and the order of related keys is the same -/
theorem forall₂_of_sorted {α β : Type} {r : α → β → Prop} {as : List α} {bs : List β} (key : α → Nat) (key' : β → Nat)
    (h : PermRel r as bs) (hmono : ∀ {a b c d}, r a b → r c d → key' b ≤ key' d → key a ≤ key c)
    (hd : (as.map key).Nodup) (has : as.Pairwise fun a c => key a ≤ key c)
    (hbs : bs.Pairwise fun b d => key' b ≤ key' d) : List.Forall₂ r as bs := by
  obtain ⟨cs, hp, hf⟩ := h
  have sorted : cs.Pairwise fun a c => key a ≤ key c := by
    clear hp
    induction hf with
    | nil => exact .nil
    | cons hab hf ih =>
      obtain ⟨hb, hbs⟩ := List.pairwise_cons.1 hbs
      refine .cons (fun c hc => ?_) (ih hbs)
      obtain ⟨d, hd, hcd⟩ := forall₂_mem_left hf hc
      exact hmono hab hcd (hb d hd)
  have same : as = cs := by
    refine hp.eq_of_pairwise (fun a c ha hc hac hca => ?_) has sorted
    exact List.inj_on_of_nodup_map hd ha (hp.mem_iff.2 hc) (hac.antisymm hca)
  rwa [same]

end CallLint
