/-
Catalogs: finite sets of signatures, held in strictly increasing order. A call matches a catalog when any entry matches.

`mem_insert` and `mem_union` say what the operations contribute; the order is a field of the type, so every operation
keeps it and two catalogs with the same members are equal (`Catalog.ext_mem`).
-/
import CallLint.Signature.Order

namespace CallLint

/-- a set of signatures in strictly increasing order -/
structure Catalog where
  entries : List Signature
  increasing : entries.Pairwise Signature.Before := by exact .nil

namespace Catalog

/-- `s` put at its place among increasing entries -/
def place (s : Signature) : List Signature → List Signature
  | [] => [s]
  | t :: ts =>
    match s.compare t with
    | .lt => s :: t :: ts
    | .eq => t :: ts
    | .gt => t :: place s ts

theorem mem_place {x s : Signature} {ts : List Signature} : x ∈ place s ts ↔ x = s ∨ x ∈ ts := by
  induction ts with
  | nil => simp [place]
  | cons t ts ih =>
    unfold place
    split
    · simp
    · rename_i h
      have := Signature.eq_of_compare h
      subst this
      simp
    · simp only [List.mem_cons, ih]
      grind

theorem place_increasing {s : Signature} {ts : List Signature} (h : ts.Pairwise Signature.Before) :
    (place s ts).Pairwise Signature.Before := by
  induction ts with
  | nil => simp [place]
  | cons t ts ih =>
    obtain ⟨head, tail⟩ := List.pairwise_cons.1 h
    unfold place
    split
    · rename_i hlt
      refine .cons (fun y hy => ?_) h
      rcases List.mem_cons.1 hy with rfl | hy
      · exact hlt
      · exact Signature.Before.trans hlt (head y hy)
    · exact h
    · rename_i hgt
      refine .cons (fun y hy => ?_) (ih tail)
      rcases mem_place.1 hy with rfl | hy
      · exact Std.OrientedCmp.lt_of_gt hgt
      · exact head y hy

/-- whether the way to the place of `s` meets no equal entry -/
def isNew (s : Signature) : List Signature → Bool
  | [] => true
  | t :: ts =>
    match s.compare t with
    | .lt => true
    | .eq => false
    | .gt => isNew s ts

theorem isNew_iff {s : Signature} {ts : List Signature} (h : ts.Pairwise Signature.Before) :
    isNew s ts = true ↔ s ∉ ts := by
  induction ts with
  | nil => simp [isNew]
  | cons t ts ih =>
    obtain ⟨head, tail⟩ := List.pairwise_cons.1 h
    unfold isNew
    split
    · rename_i hlt
      have before : ∀ x ∈ t :: ts, s.Before x := by
        intro x hx
        rcases List.mem_cons.1 hx with rfl | hx
        · exact hlt
        · exact Signature.Before.trans hlt (head x hx)
      exact iff_of_true rfl fun hs => Signature.Before.irrefl s (before s hs)
    · rename_i heq
      obtain rfl := Signature.eq_of_compare heq
      simp
    · rename_i hgt
      have ne : s ≠ t := by
        rintro rfl
        exact Signature.Before.irrefl s (Std.OrientedCmp.lt_of_gt hgt)
      rw [ih tail, List.mem_cons, not_or]
      exact ⟨fun hs => ⟨ne, hs⟩, fun hs => hs.2⟩

def empty : Catalog := ⟨[], .nil⟩

instance : Inhabited Catalog := ⟨empty⟩

instance : EmptyCollection Catalog := ⟨empty⟩

instance : Membership Signature Catalog := ⟨fun c s => s ∈ c.entries⟩

def insert (c : Catalog) (s : Signature) : Catalog :=
  ⟨place s c.entries, place_increasing c.increasing⟩

/-- `insert`, and whether the signature was not there before -/
def insertNew (c : Catalog) (s : Signature) : Bool × Catalog :=
  (isNew s c.entries, c.insert s)

def contains (c : Catalog) (s : Signature) : Bool :=
  c.entries.contains s

/-- the catalog with every signature of a list added -/
def insertAll (c : Catalog) (ss : List Signature) : Catalog :=
  ss.foldl insert c

def ofList (ss : List Signature) : Catalog :=
  empty.insertAll ss

def union (c d : Catalog) : Catalog :=
  c.insertAll d.entries

def size (c : Catalog) : Nat :=
  c.entries.length

def isEmpty (c : Catalog) : Bool :=
  c.entries.isEmpty

def covers (c : Catalog) (site : CallSite) : Bool :=
  c.entries.any (·.covers site)

/-- the entries in order, separated by commas -/
def render (c : Catalog) : String :=
  ",".intercalate (c.entries.map Signature.render)

instance : DecidableEq Catalog := fun c d =>
  decidable_of_iff (c.entries = d.entries) (by cases c; cases d; simp)

theorem nodup_of_increasing {l : List Signature} (hl : l.Pairwise Signature.Before) : l.Nodup := by
  refine List.Pairwise.imp (fun hab => ?_) hl
  rintro rfl
  exact Signature.Before.irrefl _ hab

/-- catalogs with the same members are equal -/
theorem ext_mem {c d : Catalog} (h : ∀ s, s ∈ c ↔ s ∈ d) : c = d := by
  obtain ⟨entries, hc⟩ := c
  obtain ⟨others, hd⟩ := d
  have perm : entries.Perm others := (List.perm_ext_iff_of_nodup (nodup_of_increasing hc) (nodup_of_increasing hd)).2 h
  obtain rfl : entries = others :=
    perm.eq_of_pairwise (fun a b _ _ hab hba => absurd (hab.trans hba) (Signature.Before.irrefl a)) hc hd
  rfl

@[simp]
theorem mem_insert {c : Catalog} {s x : Signature} : x ∈ c.insert s ↔ x = s ∨ x ∈ c :=
  mem_place

@[simp]
theorem mem_insertAll {c : Catalog} {ss : List Signature} {x : Signature} :
    x ∈ c.insertAll ss ↔ x ∈ ss ∨ x ∈ c := by
  induction ss generalizing c with
  | nil => simp [insertAll]
  | cons s ss ih =>
    show x ∈ (c.insert s).insertAll ss ↔ _
    rw [ih, mem_insert, List.mem_cons]
    grind

@[simp]
theorem mem_ofList {ss : List Signature} {x : Signature} : x ∈ ofList ss ↔ x ∈ ss := by
  have none : x ∉ empty := List.not_mem_nil
  rw [ofList, mem_insertAll]
  simp [none]

@[simp]
theorem mem_union {c d : Catalog} {x : Signature} : x ∈ c.union d ↔ x ∈ d ∨ x ∈ c :=
  mem_insertAll

end Catalog

end CallLint
