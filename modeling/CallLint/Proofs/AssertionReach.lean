/-
What the bounded search for assertions finds. `asserts_iff_chain`: a method asserts within a depth exactly when a chain
of at most that many calls leads from it to a method whose body holds a call that the catalog covers.

The search answers "nothing found" for every method that it has entered with as many calls left, also while that method
is still being walked, so an answer on its own says nothing. What carries the proof is `Advances`: between two states of
the memo, all entries that are new or changed are `Settled`, i.e. the method's body holds no covered call and all targets
of its calls are in the memo with one call less. A search that finds nothing from an empty memo leaves only settled
entries, and along a chain of settled entries nothing is covered.
-/
import CallLint.Proofs.Traversal
import CallLint.Unit.AssertionSearch
import Mathlib.Data.List.Chain

namespace CallLint.CompilationUnit

/-- a call in the body of `id` has `target` as its target -/
def Invokes (u : CompilationUnit) (id target : MethodId) : Prop :=
  ∃ body, u.body? id = some body ∧ ∃ c ∈ visitedCalls body, c.target = some target

/-- a call in the body of `id` is covered by the catalog -/
def HoldsAssertion (u : CompilationUnit) (catalog : Catalog) (id : MethodId) : Prop :=
  ∃ body, u.body? id = some body ∧ ∃ c ∈ visitedCalls body, catalog.covers c.site = true

/-- a chain of calls from `id` through the methods `path`, the last of which holds an assertion -/
def ChainToAssertion (u : CompilationUnit) (catalog : Catalog) (id : MethodId) (path : List MethodId) : Prop :=
  (id :: path).IsChain u.Invokes ∧ u.HoldsAssertion catalog ((id :: path).getLast (List.cons_ne_nil id path))

variable {u : CompilationUnit} {catalog : Catalog} {enter : MethodId → Explored → SearchResult Explored}

theorem ChainToAssertion.cons {id target : MethodId} {path : List MethodId} (hc : u.Invokes id target)
    (h : u.ChainToAssertion catalog target path) : u.ChainToAssertion catalog id (target :: path) :=
  ⟨h.1.cons_cons hc, by simpa using h.2⟩

/-! ## Soundness -/

/-- a visitor stops only at a covered call, or at one behind whose target something was found -/
theorem over_stopped {cs : List (Call Expr)} {explored : Explored}
    (h : ((assertionVisitor catalog enter).over cs explored).stopped = true) :
    ∃ c ∈ cs, catalog.covers c.site = true ∨ ∃ target seen, c.target = some target ∧ (enter target seen).found = true := by
  induction cs generalizing explored with
  | nil => simp [Flow.stopped] at h
  | cons c cs ih =>
    have later {seen : Explored} (h : ((assertionVisitor catalog enter).over cs seen).stopped = true) :
        ∃ c' ∈ c :: cs, catalog.covers c'.site = true ∨
          ∃ target seen, c'.target = some target ∧ (enter target seen).found = true := by
      obtain ⟨c', hc', h'⟩ := ih h
      exact ⟨c', List.mem_cons_of_mem c hc', h'⟩
    rw [Visitor.over_cons, assertionVisitor] at h
    split_ifs at h with hcov
    · exact ⟨c, List.mem_cons_self, Or.inl hcov⟩
    · split at h
      · exact later h
      · rename_i target ht
        by_cases hf : (enter target explored).found = true
        · exact ⟨c, List.mem_cons_self, Or.inr ⟨target, explored, ht, hf⟩⟩
        · simp only [hf] at h
          exact later h

theorem searchBody_found {left : Nat} {id : MethodId} {explored : Explored}
    (h : (u.searchBody catalog left enter id explored).found = true) :
    u.HoldsAssertion catalog id ∨ ∃ target seen, u.Invokes id target ∧ (enter target seen).found = true := by
  simp only [searchBody] at h
  split_ifs at h
  split at h
  · simp at h
  · rename_i body hbody
    rw [walkList_eq_over] at h
    obtain ⟨c, hc, hcov | ⟨target, seen, ht, hf⟩⟩ := over_stopped h
    · exact Or.inl ⟨body, hbody, c, visitedCalls_eq body ▸ hc, hcov⟩
    · exact Or.inr ⟨target, seen, ⟨body, hbody, c, visitedCalls_eq body ▸ hc, ht⟩, hf⟩

/-- what a search finds lies at the end of a chain -/
theorem search_found {left : Nat} {id : MethodId} {explored : Explored}
    (h : (u.search catalog left id explored).found = true) :
    ∃ path : List MethodId, path.length ≤ left ∧ u.ChainToAssertion catalog id path := by
  induction left generalizing id explored with
  | zero =>
    rcases searchBody_found h with h | ⟨target, seen, -, hf⟩
    · exact ⟨[], le_rfl, List.isChain_singleton id, h⟩
    · simp at hf
  | succ left ih =>
    rcases searchBody_found h with h | ⟨target, seen, hc, hf⟩
    · exact ⟨[], Nat.zero_le _, List.isChain_singleton id, h⟩
    · obtain ⟨path, hl, hp⟩ := ih hf
      exact ⟨target :: path, Nat.succ_le_succ hl, hp.cons hc⟩

/-! ## The memo -/

theorem wasExplored_iff {explored : Explored} {id : MethodId} {left : Nat} :
    wasExplored explored id left = true ↔ ∃ seen, explored[id]? = some seen ∧ left ≤ seen := by
  rw [wasExplored, show Memo.left? explored id = explored[id]? from rfl]
  cases explored[id]? <;> simp

theorem wasExplored_insert {explored : Explored} {id : MethodId} {left : Nat} :
    wasExplored (explored.insert id left) id left = true :=
  wasExplored_iff.2 ⟨left, by simp, le_rfl⟩

/-- the body of `id` holds no covered call, and all targets of its calls were entered with one call less than `left` -/
def Settled (u : CompilationUnit) (catalog : Catalog) (explored : Explored) (id : MethodId) (left : Nat) : Prop :=
  ¬ u.HoldsAssertion catalog id ∧
    ∀ target n, u.Invokes id target → left = n + 1 → wasExplored explored target n = true

/-- from `before` to `after` nothing was forgotten, and what was entered is settled -/
structure Advances (u : CompilationUnit) (catalog : Catalog) (before after : Explored) : Prop where
  grows : ∀ id left, wasExplored before id left = true → wasExplored after id left = true
  settled : ∀ id left, after[id]? = some left → before[id]? = some left ∨ u.Settled catalog after id left

theorem Advances.refl (explored : Explored) : u.Advances catalog explored explored :=
  ⟨fun _ _ h => h, fun _ _ h => Or.inl h⟩

theorem Advances.trans {a b c : Explored} (h : u.Advances catalog a b) (k : u.Advances catalog b c) :
    u.Advances catalog a c := by
  refine ⟨fun id left hw => k.grows id left (h.grows id left hw), fun id left he => ?_⟩
  rcases k.settled id left he with hb | hs
  · rcases h.settled id left hb with ha | hs
    · exact Or.inl ha
    · exact Or.inr ⟨hs.1, fun target n ht hn => k.grows target n (hs.2 target n ht hn)⟩
  · exact Or.inr hs

/-- the memo after entering a method whose body turns out to be settled -/
theorem Advances.of_insert {before after : Explored} {id : MethodId} {left : Nat}
    (hnew : ¬ wasExplored before id left = true) (h : u.Advances catalog (before.insert id left) after)
    (hs : u.Settled catalog after id left) : u.Advances catalog before after := by
  constructor
  · intro other n hw
    apply h.grows
    obtain ⟨seen, he, hle⟩ := wasExplored_iff.1 hw
    by_cases hid : id = other
    · subst hid
      have hlt : ¬ left ≤ seen := fun hl => hnew (wasExplored_iff.2 ⟨seen, he, hl⟩)
      exact wasExplored_iff.2 ⟨left, by simp, by omega⟩
    · exact wasExplored_iff.2 ⟨seen, by simpa [Std.HashMap.getElem?_insert, hid] using he, hle⟩
  · intro other n he
    rcases h.settled other n he with he | hs'
    · by_cases hid : id = other
      · subst hid
        have : left = n := by simpa using he
        exact Or.inr (this ▸ hs)
      · exact Or.inl (by simpa [Std.HashMap.getElem?_insert, hid] using he)
    · exact Or.inr hs'

/-! ## Completeness -/

/-- a search behind a call that finds nothing advances the memo and enters the target with `left` less one -/
def Enters (u : CompilationUnit) (catalog : Catalog) (left : Nat) (enter : MethodId → Explored → SearchResult Explored) : Prop :=
  ∀ target explored, (enter target explored).found = false →
    u.Advances catalog explored (enter target explored).memo ∧
      ∀ n, left = n + 1 → wasExplored (enter target explored).memo target n = true

/-- calls that do not stop the visitor are not covered, and their targets were entered -/
theorem over_not_stopped {left : Nat} (henter : u.Enters catalog left enter) {cs : List (Call Expr)}
    {explored : Explored} (h : ((assertionVisitor catalog enter).over cs explored).stopped = false) :
    let after := ((assertionVisitor catalog enter).over cs explored).state
    u.Advances catalog explored after ∧ ∀ c ∈ cs, catalog.covers c.site = false ∧
      ∀ target n, c.target = some target → left = n + 1 → wasExplored after target n = true := by
  induction cs generalizing explored with
  | nil => exact ⟨Advances.refl explored, by simp⟩
  | cons c cs ih =>
    -- `seen` is the memo after the first call; the rest of the calls only adds to it
    have first (seen : Explored) (hcov : catalog.covers c.site = false) (hseen : u.Advances catalog explored seen)
        (htarget : ∀ target n, c.target = some target → left = n + 1 → wasExplored seen target n = true)
        (hv : assertionVisitor catalog enter c explored = .go seen) :
        let after := ((assertionVisitor catalog enter).over (c :: cs) explored).state
        u.Advances catalog explored after ∧ ∀ c' ∈ c :: cs, catalog.covers c'.site = false ∧
          ∀ target n, c'.target = some target → left = n + 1 → wasExplored after target n = true := by
      rw [Visitor.over_cons, hv, Flow.go_andThen] at h ⊢
      obtain ⟨hadv, hall⟩ := ih h
      refine ⟨hseen.trans hadv, fun c' hc' => ?_⟩
      rcases List.mem_cons.1 hc' with rfl | hc'
      · exact ⟨hcov, fun target n ht hn => hadv.grows target n (htarget target n ht hn)⟩
      · exact hall c' hc'
    cases hcov : catalog.covers c.site with
    | true => simp [assertionVisitor, hcov, Flow.stopped] at h
    | false =>
      cases ht : c.target with
      | none => exact first explored hcov (Advances.refl explored) (by simp [ht]) (by simp [assertionVisitor, hcov, ht])
      | some target =>
        cases hf : (enter target explored).found with
        | true => simp [assertionVisitor, hcov, ht, hf, Flow.stopped] at h
        | false =>
          obtain ⟨hadv, hent⟩ := henter target explored hf
          refine first _ hcov hadv ?_ (by simp [assertionVisitor, hcov, ht, hf])
          intro target' n ht' hn
          rw [ht, Option.some.injEq] at ht'
          exact ht' ▸ hent n hn

theorem searchBody_not_found {left : Nat} (henter : u.Enters catalog left enter) {id : MethodId} {explored : Explored}
    (h : (u.searchBody catalog left enter id explored).found = false) :
    u.Advances catalog explored (u.searchBody catalog left enter id explored).memo ∧
      wasExplored (u.searchBody catalog left enter id explored).memo id left = true := by
  unfold searchBody at h ⊢
  split_ifs at h ⊢ with hold
  · exact ⟨Advances.refl explored, hold⟩
  · dsimp only at h ⊢
    split at h
    · rename_i hbody
      have hs : u.Settled catalog (explored.insert id left) id left :=
        ⟨by simp [HoldsAssertion, hbody], by simp [Invokes, hbody]⟩
      exact ⟨(Advances.refl _).of_insert hold hs, wasExplored_insert⟩
    · rename_i body hbody
      rw [walkList_eq_over] at h ⊢
      obtain ⟨hadv, hall⟩ := over_not_stopped henter h
      have hs : u.Settled catalog ((assertionVisitor catalog enter).over (listCalls body) (explored.insert id left)).state
          id left := by
        constructor
        · rintro ⟨body', hbody', c, hc, hcov⟩
          rw [hbody, Option.some.injEq] at hbody'
          rw [← hbody', visitedCalls_eq] at hc
          simp [(hall c hc).1] at hcov
        · rintro target n ⟨body', hbody', c, hc, ht⟩ hn
          rw [hbody, Option.some.injEq] at hbody'
          rw [← hbody', visitedCalls_eq] at hc
          exact (hall c hc).2 target n ht hn
      exact ⟨hadv.of_insert hold hs, hadv.grows id left wasExplored_insert⟩

theorem search_not_found {left : Nat} {id : MethodId} {explored : Explored}
    (h : (u.search catalog left id explored).found = false) :
    u.Advances catalog explored (u.search catalog left id explored).memo ∧
      wasExplored (u.search catalog left id explored).memo id left = true := by
  induction left generalizing id explored with
  | zero =>
    have enters : u.Enters catalog 0 fun _ explored => ⟨false, explored⟩ :=
      fun target explored _ => ⟨Advances.refl explored, by simp⟩
    exact searchBody_not_found enters h
  | succ left ih =>
    have enters : u.Enters catalog (left + 1) (u.search catalog left) := by
      intro target explored hf
      refine ⟨(ih hf).1, fun n hn => ?_⟩
      rw [← Nat.succ.inj hn]
      exact (ih hf).2
    exact searchBody_not_found enters h

/-- in a memo with settled entries only, no chain from an entered method leads to an assertion -/
theorem not_chain_of_settled {explored : Explored}
    (hall : ∀ id left, explored[id]? = some left → u.Settled catalog explored id left) {path : List MethodId}
    {id : MethodId} {left : Nat} (hw : wasExplored explored id left = true) (hl : path.length ≤ left) :
    ¬ u.ChainToAssertion catalog id path := by
  induction path generalizing id left with
  | nil =>
    obtain ⟨seen, he, -⟩ := wasExplored_iff.1 hw
    exact fun h => (hall id seen he).1 h.2
  | cons target path ih =>
    rintro ⟨hchain, hlast⟩
    obtain ⟨seen, he, hle⟩ := wasExplored_iff.1 hw
    obtain ⟨n, rfl⟩ : ∃ n, seen = n + 1 := ⟨seen - 1, by simp at hl; omega⟩
    have ht := (hall id (n + 1) he).2 target n hchain.rel rfl
    exact ih ht (by simp at hl; omega) ⟨hchain.tail, by simpa using hlast⟩

/-- an assertion at the end of a chain is found -/
theorem asserts_of_chain {id : MethodId} {depth : Nat} {path : List MethodId} (hl : path.length ≤ depth)
    (hp : u.ChainToAssertion catalog id path) : u.asserts catalog id depth = true := by
  by_contra hne
  obtain ⟨hadv, hw⟩ := search_not_found (Bool.eq_false_iff.2 hne)
  refine not_chain_of_settled (fun other left he => ?_) hw hl hp
  simpa using hadv.settled other left he

/-- **The search finds exactly what is reachable.** A method asserts within `depth` calls if and only if a chain of at
most `depth` calls leads from it to a method that holds an assertion. -/
theorem asserts_iff_chain (u : CompilationUnit) (catalog : Catalog) (id : MethodId) (depth : Nat) :
    u.asserts catalog id depth = true ↔
      ∃ path : List MethodId, path.length ≤ depth ∧ u.ChainToAssertion catalog id path := by
  constructor
  · exact search_found
  · rintro ⟨path, hl, hp⟩
    exact asserts_of_chain hl hp

end CallLint.CompilationUnit
