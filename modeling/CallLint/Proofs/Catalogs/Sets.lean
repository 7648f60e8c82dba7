/-
Catalogs are sets of signatures. The order in which a catalog holds its entries is said once more, one part of a
signature after the other and strings by their bytes (`Signature.Precedes`), and it is the order of the definitions
(`before_iff_precedes`). A `Shelf` is a number of catalogs by name, worked on by operations; what the operations
contribute to each name is a list, with repetitions and in no order. Each step keeps a catalog to the signatures that
were contributed to it (`Holds.step`), so every run does (`run_holds`).

`Shelf.run_sets`: after any operations a catalog lists what was contributed to it, each signature once and in order, and
depends on nothing else; its size, its answers and its unions are those of the set.
-/
import CallLint.Proofs.AssertionSettings
import CallLint.Proofs.Catalogs.ByteOrder
import Mathlib.Data.List.Dedup
import Mathlib.Logic.Function.Basic

namespace CallLint

/-! ## The order of signatures -/

/-- any number of arguments comes before no argument, and that before counts -/
inductive Arity.Precedes : Arity → Arity → Prop
  | any_none : Precedes .any .none
  | any_exactly {n : Nat} : Precedes .any (.exactly n)
  | none_exactly {n : Nat} : Precedes .none (.exactly n)
  | exactly {m n : Nat} : m < n → Precedes (.exactly m) (.exactly n)

/-- whole names come before stems, and both are in the order of their bytes -/
inductive MethodName.Precedes : MethodName → MethodName → Prop
  | kind {name stem : String} : Precedes (.exact name) (.startsWith stem)
  | exact {a b : String} : Text.bytes a < Text.bytes b → Precedes (.exact a) (.exact b)
  | startsWith {a b : String} : Text.bytes a < Text.bytes b → Precedes (.startsWith a) (.startsWith b)

/-- the owner decides by its bytes, then the name, then the arity -/
inductive Signature.Precedes (s t : Signature) : Prop
  | owner : Text.bytes s.owner < Text.bytes t.owner → Precedes s t
  | name : s.owner = t.owner → s.name.Precedes t.name → Precedes s t
  | arity : s.owner = t.owner → s.name = t.name → s.arity.Precedes t.arity → Precedes s t

theorem Arity.precedes_iff {a b : Arity} : a.Precedes b ↔ a.rank < b.rank := by
  constructor
  · intro h
    cases h <;> simp only [rank] <;> omega
  · intro h
    cases a <;> cases b <;> simp only [rank] at h
    case any.none => exact .any_none
    case any.exactly => exact .any_exactly
    case none.exactly => exact .none_exactly
    case exactly.exactly => exact .exactly (by omega)
    all_goals omega

theorem MethodName.precedes_iff {a b : MethodName} :
    a.Precedes b ↔ a.rank < b.rank ∨ a.rank = b.rank ∧ a.text < b.text := by
  constructor
  · intro h
    cases h with
    | kind => exact .inl Nat.zero_lt_one
    | exact h => exact .inr ⟨rfl, Text.lt_iff_bytes_lt.2 h⟩
    | startsWith h => exact .inr ⟨rfl, Text.lt_iff_bytes_lt.2 h⟩
  · intro h
    cases a <;> cases b <;> simp only [rank, text] at h
    case exact.exact => exact .exact (Text.lt_iff_bytes_lt.1 (by simpa using h))
    case exact.startsWith => exact .kind
    case startsWith.exact => simp at h
    case startsWith.startsWith => exact .startsWith (Text.lt_iff_bytes_lt.1 (by simpa using h))

theorem compare_string_eq_lt {a b : String} : compare a b = .lt ↔ a < b :=
  compareOfLessAndEq_eq_lt

/-- **The order of entries** is that of owners, names and arities, with strings by their bytes. -/
theorem Signature.before_iff_precedes {s t : Signature} : s.Before t ↔ s.Precedes t := by
  have parts : s.Before t ↔ s.owner < t.owner ∨ s.owner = t.owner ∧ (s.name.rank < t.name.rank ∨
      s.name.rank = t.name.rank ∧ (s.name.text < t.name.text ∨ s.name.text = t.name.text ∧
        s.arity.rank < t.arity.rank)) := by
    simp only [Before, compare, compareLex, compareOn, Ordering.then_eq_lt, compare_string_eq_lt, Nat.compare_eq_lt,
      Std.compare_eq_iff_eq]
  rw [parts]
  constructor
  · rintro (howner | ⟨howner, hname | ⟨hrank, htext | ⟨htext, harity⟩⟩⟩)
    · exact .owner (Text.lt_iff_bytes_lt.1 howner)
    · exact .name howner (MethodName.precedes_iff.2 (.inl hname))
    · exact .name howner (MethodName.precedes_iff.2 (.inr ⟨hrank, htext⟩))
    · exact .arity howner (MethodName.eq_of_rank_text hrank htext) (Arity.precedes_iff.2 harity)
  · rintro (howner | ⟨howner, hname⟩ | ⟨howner, hname, harity⟩)
    · exact .inl (Text.lt_iff_bytes_lt.2 howner)
    · exact .inr ⟨howner, (MethodName.precedes_iff.1 hname).imp id fun h => ⟨h.1, .inl h.2⟩⟩
    · exact .inr ⟨howner, .inr ⟨congrArg _ hname, .inr ⟨congrArg _ hname, Arity.precedes_iff.1 harity⟩⟩⟩

/-! ## Laws of catalogs -/

namespace Catalog

theorem nodup (c : Catalog) : c.entries.Nodup :=
  nodup_of_increasing c.increasing

theorem increasing_precedes (c : Catalog) : c.entries.Pairwise Signature.Precedes :=
  c.increasing.imp Signature.before_iff_precedes.1

theorem insertNew_iff {c : Catalog} {s : Signature} : (c.insertNew s).1 = true ↔ s ∉ c.entries :=
  isNew_iff c.increasing

theorem contains_iff {c : Catalog} {s : Signature} : c.contains s = true ↔ s ∈ c.entries :=
  List.contains_iff_mem

theorem eq_iff_mem {c d : Catalog} : c = d ↔ ∀ s, s ∈ c.entries ↔ s ∈ d.entries :=
  ⟨fun h _ => by rw [h], ext_mem⟩

theorem union_comm (c d : Catalog) : c.union d = d.union c := by
  refine ext_mem fun s => ?_
  rw [mem_union, mem_union, or_comm]

theorem union_assoc (c d e : Catalog) : (c.union d).union e = c.union (d.union e) := by
  refine ext_mem fun s => ?_
  rw [mem_union, mem_union, mem_union, mem_union, or_assoc]

theorem union_self (c : Catalog) : c.union c = c := by
  refine ext_mem fun s => ?_
  rw [mem_union, or_self]

end Catalog

/-! ## Operations -/

/-- an operation on catalogs that go by names -/
inductive CatalogOp where
  | insert (name : String) (s : Signature)
  | extend (name : String) (ss : List Signature)
  | collect (name : String) (ss : List Signature)
  /-- names what is in one of two catalogs -/
  | union (name left right : String)
  | parse (name spec : String)
  | builtin (name : String)
deriving Repr

namespace CatalogOp

/-- the name whose catalog the operation sets -/
def target : CatalogOp → String
  | insert name _ | extend name _ | collect name _ | union name _ _ | parse name _ | builtin name => name

/-- the catalog that the operation sets -/
def result (catalogs : String → Catalog) : CatalogOp → Catalog
  | insert name s => ((catalogs name).insertNew s).2
  | extend name ss => (catalogs name).insertAll ss
  | collect _ ss => .ofList ss
  | union _ left right => (catalogs left).union (catalogs right)
  | parse _ spec => (EntryList.read spec).catalog
  | builtin _ => .builtin

/-- the signatures that the operation leaves contributed to its name -/
def gives (given : String → List Signature) : CatalogOp → List Signature
  | insert name s => given name ++ [s]
  | extend name ss => given name ++ ss
  | collect _ ss => ss
  | union _ left right => given left ++ given right
  | parse _ spec => (EntryList.read spec).signatures
  | builtin _ => Framework.all.flatMap (·.signatures)

end CatalogOp

/-- catalogs by name -/
abbrev Shelf := String → Catalog

namespace Shelf

def step (shelf : Shelf) (op : CatalogOp) : Shelf :=
  Function.update shelf op.target (op.result shelf)

/-- the catalogs after some operations; before the first one all are empty -/
def run (ops : List CatalogOp) : Shelf :=
  ops.foldl step fun _ => .empty

/-- what some operations contribute to each name -/
def contributed (ops : List CatalogOp) : String → List Signature :=
  ops.foldl (fun given op => Function.update given op.target (op.gives given)) fun _ => []

/-- each catalog has the signatures that are given for its name -/
def Holds (shelf : Shelf) (given : String → List Signature) : Prop :=
  ∀ name s, s ∈ (shelf name).entries ↔ s ∈ given name

variable {shelf : Shelf} {given : String → List Signature}

theorem Holds.result (h : shelf.Holds given) (op : CatalogOp) (s : Signature) :
    s ∈ (op.result shelf).entries ↔ s ∈ op.gives given := by
  cases op with
  | insert name t =>
    rw [CatalogOp.gives, List.mem_append, List.mem_singleton, ← h name s, or_comm]
    exact Catalog.mem_insert
  | extend name ss =>
    rw [CatalogOp.gives, List.mem_append, ← h name s, or_comm]
    exact Catalog.mem_insertAll
  | collect name ss => exact Catalog.mem_ofList
  | union name left right =>
    rw [CatalogOp.gives, List.mem_append, ← h left s, ← h right s, or_comm]
    exact Catalog.mem_union
  | parse name spec => exact EntryList.mem_catalog
  | builtin name =>
    change s ∈ Catalog.builtin ↔ _
    rw [Catalog.builtin, Catalog.mem_ofList, CatalogOp.gives]

/-- **An operation keeps catalogs to what is contributed.** -/
theorem Holds.step (h : shelf.Holds given) (op : CatalogOp) :
    (shelf.step op).Holds (Function.update given op.target (op.gives given)) := by
  intro name s
  rw [Shelf.step, Function.update_apply, Function.update_apply]
  split_ifs
  · exact h.result op s
  · exact h name s

/-- **After any operations the catalogs hold what was contributed.** -/
theorem run_holds (ops : List CatalogOp) : (run ops).Holds (contributed ops) := by
  have all (shelf : Shelf) (given : String → List Signature) (h : shelf.Holds given) :
      Holds (ops.foldl Shelf.step shelf)
        (ops.foldl (fun given op => Function.update given op.target (op.gives given)) given) := by
    induction ops generalizing shelf given with
    | nil => exact h
    | cons op ops ih => exact ih _ _ (h.step op)
  exact all _ _ fun _ _ => iff_of_false List.not_mem_nil List.not_mem_nil

/-- **Catalogs are sets.** After any operations each catalog lists, in strictly increasing order, the signatures
contributed to it and no others, each once. Inserting says whether the signature was absent; `contains` and the size
agree with the list; two catalogs are equal when they hold the same signatures, so the order of operations does not
matter. Unions commute, associate and are idempotent, and match a call when one of their parts does. -/
theorem run_sets :
    (∀ (ops : List CatalogOp) (name : String),
      (run ops name).entries.Pairwise Signature.Precedes ∧
      (∀ s, (run ops name).entries.count s = if s ∈ contributed ops name then 1 else 0) ∧
      (run ops name).size = (contributed ops name).dedup.length ∧
      ∀ ops' name', run ops name = run ops' name' ↔ ∀ s, s ∈ contributed ops name ↔ s ∈ contributed ops' name') ∧
    (∀ (c : Catalog) (s : Signature),
      ((c.insertNew s).1 = true ↔ s ∉ c.entries) ∧ (c.contains s = true ↔ s ∈ c.entries) ∧ c.size = c.entries.length) ∧
    (∀ c d : Catalog, c = d ↔ ∀ s, s ∈ c.entries ↔ s ∈ d.entries) ∧
    (∀ c d e : Catalog, c.union d = d.union c ∧ (c.union d).union e = c.union (d.union e) ∧ c.union c = c) ∧
    ∀ (c d : Catalog) (site : CallSite),
      (c.union d).covers site = true ↔ c.covers site = true ∨ d.covers site = true := by
  refine ⟨fun ops name => ⟨(run ops name).increasing_precedes, fun s => ?_, ?_, fun ops' name' => ?_⟩,
    fun c s => ⟨Catalog.insertNew_iff, Catalog.contains_iff, rfl⟩, fun c d => Catalog.eq_iff_mem,
    fun c d e => ⟨c.union_comm d, c.union_assoc d e, c.union_self⟩, Catalog.covers_union⟩
  · rw [(run ops name).nodup.count]
    exact if_congr (run_holds ops name s) rfl rfl
  · have perm : (run ops name).entries.Perm (contributed ops name).dedup := by
      refine (List.perm_ext_iff_of_nodup (run ops name).nodup (List.nodup_dedup _)).2 fun s => ?_
      rw [List.mem_dedup, run_holds ops name s]
    exact perm.length_eq
  · rw [Catalog.eq_iff_mem]
    exact forall_congr' fun s => iff_congr (run_holds ops name s) (run_holds ops' name' s)

end Shelf

end CallLint
