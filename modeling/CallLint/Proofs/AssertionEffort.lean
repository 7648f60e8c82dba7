/-
What the bounded search for assertions costs. A `Journal` is a memo that also keeps each number of calls left as it is
recorded, and where the walk of a body begins and where it ends. What a memo keeps besides the numbers changes nothing
(`search_view`), so the search with a journal finds the same and remembers the same as the one without.

Nothing is recorded for a method unless it is more than before, and a body is only walked right after something was
recorded. What a search adds to its journal is `Tidy`: bodies begin and end like brackets, at most one inside the other for
each call left. So however many paths lead to a method, its body is walked at most once for each number of calls left:
`search_effort`.
-/
import CallLint.Proofs.Traversal
import CallLint.Unit.AssertionSearch
import Mathlib.Tactic

namespace CallLint

/-- what a search does, step by step -/
inductive SearchEvent where
  /-- the memo says from now on that the method was entered with so many calls left -/
  | recorded (id : MethodId) (left : Nat)
  | entered (id : MethodId)
  | returned (id : MethodId)
deriving DecidableEq, Repr

namespace SearchEvent

/-- the number of calls left that is recorded for the method -/
def recordedFor? (id : MethodId) : SearchEvent → Option Nat
  | recorded other left => if other = id then some left else none
  | _ => none

def isEntered : SearchEvent → Bool
  | entered _ => true
  | _ => false

def isReturned : SearchEvent → Bool
  | returned _ => true
  | _ => false

/-- what is recorded for a method, one after the other -/
def recordedFor (id : MethodId) (events : List SearchEvent) : List Nat :=
  events.filterMap (recordedFor? id)

/-- how many bodies begin -/
def begun (events : List SearchEvent) : Nat :=
  events.countP isEntered

/-- how many bodies end -/
def ended (events : List SearchEvent) : Nat :=
  events.countP isReturned

end SearchEvent

open SearchEvent

/-! ## Memos that keep more -/

/-- one memo is what another one shows of itself -/
structure Memo.View {μ ν : Type} [Memo μ] [Memo ν] (view : μ → ν) : Prop where
  left? : ∀ memo id, Memo.left? (view memo) id = Memo.left? memo id
  record : ∀ memo id left, view (Memo.record memo id left) = Memo.record (view memo) id left
  enter : ∀ memo id, view (Memo.enter memo id) = Memo.enter (view memo) id
  leave : ∀ memo id, view (Memo.leave memo id) = Memo.leave (view memo) id

namespace CompilationUnit

variable {μ ν : Type} {view : μ → ν} {u : CompilationUnit} {catalog : Catalog} {left : Nat}
  {enter : MethodId → μ → SearchResult μ} {enter' : MethodId → ν → SearchResult ν}

/-- one search finds and remembers what is seen of the other -/
def Agrees (view : μ → ν) (enter : MethodId → μ → SearchResult μ) (enter' : MethodId → ν → SearchResult ν) : Prop :=
  ∀ id memo, (enter id memo).found = (enter' id (view memo)).found ∧
    view (enter id memo).memo = (enter' id (view memo)).memo

theorem Agrees.over (catalog : Catalog) (h : Agrees view enter enter') (cs : List (Call Expr)) (memo : μ) :
    ((assertionVisitor catalog enter).over cs memo).stopped =
        ((assertionVisitor catalog enter').over cs (view memo)).stopped ∧
      view ((assertionVisitor catalog enter).over cs memo).state =
        ((assertionVisitor catalog enter').over cs (view memo)).state := by
  induction cs generalizing memo with
  | nil => exact ⟨rfl, rfl⟩
  | cons c cs ih =>
    rw [Visitor.over_cons, Visitor.over_cons, assertionVisitor, assertionVisitor]
    split_ifs
    · exact ⟨rfl, rfl⟩
    · cases c.target with
      | none => exact ih memo
      | some target =>
        obtain ⟨hfound, hmemo⟩ := h target memo
        dsimp only
        rw [← hfound, ← hmemo]
        cases (enter target memo).found with
        | true => exact ⟨rfl, rfl⟩
        | false => exact ih _

variable [Memo μ] [Memo ν]

theorem Agrees.body (hv : Memo.View view) (h : Agrees view enter enter') :
    Agrees view (u.searchBody catalog left enter) (u.searchBody catalog left enter') := by
  intro id memo
  have old : wasExplored (view memo) id left = wasExplored memo id left := by
    rw [wasExplored, wasExplored, hv.left?]
  unfold searchBody
  rw [old]
  split_ifs
  · exact ⟨rfl, rfl⟩
  · dsimp only
    rw [← hv.record]
    cases u.body? id with
    | none => exact ⟨rfl, rfl⟩
    | some body =>
      dsimp only
      rw [← hv.enter, walkList_eq_over, walkList_eq_over]
      obtain ⟨stopped, state⟩ := h.over catalog (listCalls body) (Memo.enter (Memo.record memo id left) id)
      exact ⟨stopped, by rw [hv.leave, state]⟩

/-- **What a memo keeps besides changes nothing.** -/
theorem search_view (hv : Memo.View view) (u : CompilationUnit) (catalog : Catalog) (left : Nat) :
    Agrees view (u.search catalog left) (u.search catalog left) := by
  induction left with
  | zero => exact Agrees.body hv fun _ _ => ⟨rfl, rfl⟩
  | succ left ih => exact ih.body hv

end CompilationUnit

/-- the memo and what has been done so far -/
structure Journal where
  explored : Explored
  events : List SearchEvent

namespace Journal

def empty : Journal := ⟨∅, []⟩

def write (j : Journal) (e : SearchEvent) : Journal :=
  { j with events := j.events ++ [e] }

/-- a new entry of the memo -/
def record (j : Journal) (id : MethodId) (left : Nat) : Journal :=
  ⟨j.explored.insert id left, j.events ++ [.recorded id left]⟩

/-- all steps are written down -/
instance : Memo Journal where
  left? j id := j.explored[id]?
  record := record
  enter j id := j.write (.entered id)
  leave j id := j.write (.returned id)

@[simp]
theorem left?_eq (j : Journal) (id : MethodId) : Memo.left? j id = j.explored[id]? := rfl

@[simp]
theorem record_eq (j : Journal) (id : MethodId) (left : Nat) : Memo.record j id left = j.record id left := rfl

@[simp]
theorem enter_eq (j : Journal) (id : MethodId) : Memo.enter j id = j.write (.entered id) := rfl

@[simp]
theorem leave_eq (j : Journal) (id : MethodId) : Memo.leave j id = j.write (.returned id) := rfl

theorem explored_view : Memo.View Journal.explored where
  left? _ _ := rfl
  record _ _ _ := rfl
  enter _ _ := rfl
  leave _ _ := rfl

end Journal

/-! ## Tidy journals -/

/-- each body begins right after something was recorded for its method -/
def Preceded (events : List SearchEvent) : Prop :=
  ∀ (before after : List SearchEvent) (id : MethodId), events = before ++ .entered id :: after →
    ∃ earlier left, before = earlier ++ [.recorded id left]

namespace Preceded

variable {es fs : List SearchEvent}

theorem other {e : SearchEvent} (he : e.isEntered = false) : Preceded [e] := by
  intro before after id h
  obtain ⟨-, heq⟩ | ⟨before, -, hnil⟩ := List.cons_eq_append_iff.1 h
  · obtain rfl := (List.cons.inj heq).1
    cases he
  · simp at hnil

theorem walk (id : MethodId) (left : Nat) : Preceded [.recorded id left, .entered id] := by
  intro before after other h
  obtain ⟨-, heq⟩ | ⟨before, rfl, hrest⟩ := List.cons_eq_append_iff.1 h
  · cases heq
  · obtain ⟨rfl, heq⟩ | ⟨before, -, hnil⟩ := List.cons_eq_append_iff.1 hrest
    · cases heq
      exact ⟨[], left, rfl⟩
    · simp at hnil

theorem append (h : Preceded es) (k : Preceded fs) : Preceded (es ++ fs) := by
  intro before after id heq
  obtain ⟨between, rfl, hfs⟩ | ⟨between, hes, hfs⟩ := List.append_eq_append_iff.1 heq
  · obtain ⟨earlier, left, rfl⟩ := k between after id hfs
    exact ⟨es ++ earlier, left, by rw [List.append_assoc]⟩
  · cases between with
    | nil =>
      -- nothing stands before the first of the later events, so it is no beginning
      obtain ⟨earlier, left, hnil⟩ := k [] after id hfs.symm
      simp at hnil
    | cons e between =>
      rw [List.cons_append, List.cons.injEq] at hfs
      obtain ⟨rfl, -⟩ := hfs
      exact h before between id hes

end Preceded

/-- Bodies begin and end like brackets, at most `depth` of them one in the other. Each begins right after something was
recorded for its method, and the numbers that are recorded are smaller than `depth`. -/
inductive Tidy : Nat → List SearchEvent → Prop
  | nil {depth : Nat} : Tidy depth []
  | bodiless {depth left : Nat} {id : MethodId} {rest : List SearchEvent} :
    left < depth → Tidy depth rest → Tidy depth (.recorded id left :: rest)
  | body {depth left : Nat} {id : MethodId} {inner rest : List SearchEvent} :
    left ≤ depth → Tidy depth inner → Tidy (depth + 1) rest →
      Tidy (depth + 1) (.recorded id left :: .entered id :: (inner ++ .returned id :: rest))

namespace Tidy

variable {depth : Nat} {es fs : List SearchEvent}

theorem append (h : Tidy depth es) (k : Tidy depth fs) : Tidy depth (es ++ fs) := by
  induction h with
  | nil => exact k
  | bodiless hl _ ih => exact .bodiless hl (ih k)
  | body hl hinner _ _ ih =>
    rw [List.cons_append, List.cons_append, List.append_assoc]
    exact .body hl hinner (ih k)

theorem recorded_lt (h : Tidy depth es) {id : MethodId} {left : Nat} (hmem : .recorded id left ∈ es) : left < depth := by
  induction h with
  | nil => cases hmem
  | bodiless hl _ ih =>
    rcases List.mem_cons.1 hmem with heq | hmem
    · cases heq
      exact hl
    · exact ih hmem
  | body hl _ _ ihInner ih =>
    simp only [List.mem_cons, List.mem_append, reduceCtorEq, false_or] at hmem
    rcases hmem with heq | hmem | hmem
    · cases heq
      exact Nat.lt_succ_of_le hl
    · exact (ihInner hmem).trans (Nat.lt_succ_self _)
    · exact ih hmem

theorem recordedFor_lt (h : Tidy depth es) {id : MethodId} {left : Nat} (hmem : left ∈ recordedFor id es) :
    left < depth := by
  obtain ⟨e, he, hrec⟩ := List.mem_filterMap.1 hmem
  cases e with
  | recorded other left' =>
    simp only [recordedFor?, Option.ite_none_right_eq_some, Option.some.injEq] at hrec
    exact hrec.2 ▸ h.recorded_lt he
  | entered _ => cases hrec
  | returned _ => cases hrec

/-- as many bodies end as begin -/
theorem begun_eq (h : Tidy depth es) : begun es = ended es := by
  induction h with
  | nil => rfl
  | bodiless _ _ ih => exact ih
  | body _ _ _ ihInner ih =>
    simp only [begun, ended, List.countP_cons, List.countP_append, isEntered, isReturned] at ihInner ih ⊢
    simp only [Bool.false_eq_true, if_false, if_true]
    omega

/-- at each point at most `depth` bodies have begun and not ended -/
theorem open_le (h : Tidy depth es) {before : List SearchEvent} (hb : before <+: es) :
    begun before ≤ ended before + depth := by
  induction h generalizing before with
  | nil =>
    rw [List.prefix_nil] at hb
    rw [hb]
    exact Nat.zero_le _
  | bodiless _ _ ih =>
    rcases List.prefix_cons_iff.1 hb with rfl | ⟨before, rfl, hrest⟩
    · exact Nat.zero_le _
    · exact (ih hrest :)
  | @body depth left id inner rest _ hinner _ ihInner ih =>
    rcases List.prefix_cons_iff.1 hb with rfl | ⟨before, rfl, hbegun⟩
    · exact Nat.zero_le _
    rcases List.prefix_cons_iff.1 hbegun with rfl | ⟨before, rfl, hinside⟩
    · exact Nat.zero_le _
    -- the body that begins here has ended only when all of `inner` is there
    have more : begun (.recorded id left :: .entered id :: before) = begun before + 1 := by
      simp [begun, List.countP_cons, isEntered]
    have same : ended (.recorded id left :: .entered id :: before) = ended before := by
      simp [ended, isReturned]
    rw [more, same]
    rcases List.prefix_or_prefix_of_prefix hinside (List.prefix_append inner _) with hin | ⟨after, rfl⟩
    · have := ihInner hin
      omega
    · have closed := hinner.begun_eq
      have hafter := (List.prefix_append_right_inj inner).1 hinside
      rcases List.prefix_cons_iff.1 hafter with rfl | ⟨after, rfl, hrest⟩
      · rw [List.append_nil]
        omega
      · have := ih hrest
        simp only [begun, ended, List.countP_append, List.countP_cons, isEntered, isReturned] at this closed ⊢
        simp only [Bool.false_eq_true, if_false, if_true]
        omega

/-- a body is walked only right after something was recorded for its method -/
theorem preceded (h : Tidy depth es) : Preceded es := by
  induction h with
  | nil => simp [Preceded]
  | bodiless _ _ ih => exact (Preceded.other rfl).append ih
  | @body depth left id inner rest _ _ _ ihInner ih =>
    have parts : SearchEvent.recorded id left :: .entered id :: (inner ++ .returned id :: rest) =
        [.recorded id left, .entered id] ++ (inner ++ ([.returned id] ++ rest)) := rfl
    rw [parts]
    exact (Preceded.walk id left).append (ihInner.append ((Preceded.other rfl).append ih))

/-- each walk of a body has its own entry in the memo -/
theorem count_entered_le (h : Tidy depth es) (id : MethodId) :
    es.count (.entered id) ≤ (recordedFor id es).length := by
  induction h with
  | nil => exact Nat.zero_le _
  | @bodiless depth left other rest _ _ ih =>
    have recorded : (recordedFor id rest).length ≤ (recordedFor id (.recorded other left :: rest)).length :=
      ((List.sublist_cons_self _ rest).filterMap _).length_le
    rw [List.count_cons_of_ne (by simp)]
    exact ih.trans recorded
  | @body depth left other inner rest _ _ _ ihInner ih =>
    have recorded : recordedFor id (.recorded other left :: .entered other :: (inner ++ .returned other :: rest)) =
        (if other = id then [left] else []) ++ (recordedFor id inner ++ recordedFor id rest) := by
      split_ifs with hid <;> simp [recordedFor, recordedFor?, List.filterMap_cons, hid]
    have entered :
        (SearchEvent.recorded other left :: .entered other :: (inner ++ .returned other :: rest)).count (.entered id) =
        (if other = id then 1 else 0) + (inner.count (.entered id) + rest.count (.entered id)) := by
      split_ifs with hid <;> simp [hid, Nat.add_comm]
    rw [recorded, entered, List.length_append, List.length_append]
    split_ifs
    · rw [List.length_singleton]
      omega
    · rw [List.length_nil]
      omega

end Tidy

/-! ## Journals of searches -/

theorem recordedFor_append (id : MethodId) (es fs : List SearchEvent) :
    recordedFor id (es ++ fs) = recordedFor id es ++ recordedFor id fs :=
  List.filterMap_append

namespace Journal

variable {j j' j'' : Journal} {id : MethodId} {left depth : Nat}

/-- The memo says what was recorded last, and whatever is recorded for a method is more than before. -/
def Faithful (j : Journal) : Prop :=
  ∀ id, j.explored[id]? = (recordedFor id j.events).getLast? ∧ (recordedFor id j.events).Pairwise (· < ·)

theorem Faithful.write (h : j.Faithful) {e : SearchEvent} (he : ∀ id, e.recordedFor? id = none) :
    (j.write e).Faithful := by
  intro id
  have same : recordedFor id (j.write e).events = recordedFor id j.events := by
    rw [Journal.write, recordedFor_append, recordedFor, recordedFor, List.filterMap_cons, he id, List.filterMap_nil,
      List.append_nil]
  rw [same]
  exact h id

/-- what is new in the memo is more than what is recorded already -/
theorem Faithful.record (h : j.Faithful) (hnew : CompilationUnit.wasExplored j id left = false) :
    (j.record id left).Faithful := by
  intro other
  obtain ⟨hlast, hless⟩ := h other
  rw [Journal.record, recordedFor_append, Std.HashMap.getElem?_insert]
  by_cases hid : id = other
  · subst hid
    have here : recordedFor id [.recorded id left] = [left] := by simp [recordedFor, recordedFor?]
    rw [here, if_pos (by simp), List.getLast?_concat]
    refine ⟨rfl, List.pairwise_append.2 ⟨hless, List.pairwise_singleton _ _, fun seen hseen n hn => ?_⟩⟩
    obtain rfl := List.mem_singleton.1 hn
    -- the last number is the largest, and it is less than the new one
    cases hlist : (recordedFor id j.events).getLast? with
    | none =>
      rw [List.getLast?_eq_none_iff] at hlist
      rw [hlist] at hseen
      cases hseen
    | some last =>
      rw [CompilationUnit.wasExplored, left?_eq, hlast, hlist] at hnew
      have hlt : last < n := by simpa using hnew
      obtain ⟨before, hbefore⟩ := List.getLast?_eq_some_iff.1 hlist
      rw [hbefore] at hseen hless
      rcases List.mem_append.1 hseen with hmem | hmem
      · exact ((List.pairwise_append.1 hless).2.2 seen hmem last (by simp)).trans hlt
      · obtain rfl := List.mem_singleton.1 hmem
        exact hlt
  · have elsewhere : recordedFor other [.recorded id left] = [] := by simp [recordedFor, recordedFor?, hid]
    rw [elsewhere, List.append_nil, if_neg (by simpa using hid)]
    exact ⟨hlast, hless⟩

/-- the later journal has tidy events after those of the first, and its memo is as faithful -/
structure Continues (depth : Nat) (j j' : Journal) : Prop where
  tidy : ∃ es, j'.events = j.events ++ es ∧ Tidy depth es
  faithful : j.Faithful → j'.Faithful

theorem Continues.refl (depth : Nat) (j : Journal) : Continues depth j j :=
  ⟨⟨[], by simp, .nil⟩, id⟩

theorem Continues.trans (h : Continues depth j j') (k : Continues depth j' j'') : Continues depth j j'' := by
  obtain ⟨es, hes, htidy⟩ := h.tidy
  obtain ⟨fs, hfs, ktidy⟩ := k.tidy
  exact ⟨⟨es ++ fs, by rw [hfs, hes, List.append_assoc], htidy.append ktidy⟩, k.faithful ∘ h.faithful⟩

end Journal

namespace CompilationUnit

variable {u : CompilationUnit} {catalog : Catalog} {left depth : Nat} {enter : MethodId → Journal → SearchResult Journal}

/-- the calls of a body, one after the other -/
theorem over_continues (catalog : Catalog) (h : ∀ id j, Journal.Continues depth j (enter id j).memo)
    (cs : List (Call Expr)) (j : Journal) : Journal.Continues depth j ((assertionVisitor catalog enter).over cs j).state := by
  induction cs generalizing j with
  | nil => exact .refl depth j
  | cons c cs ih =>
    rw [Visitor.over_cons, assertionVisitor]
    split_ifs
    · exact .refl depth j
    · cases c.target with
      | none => exact ih j
      | some target =>
        dsimp only
        cases hf : (enter target j).found with
        | true => exact h target j
        | false => exact (h target j).trans (ih _)

/-- one step of the search: what is behind the calls of a body is one level further in -/
theorem searchBody_continues (h : ∀ id j, Journal.Continues left j (enter id j).memo) (id : MethodId)
    (j : Journal) : Journal.Continues (left + 1) j (u.searchBody catalog left enter id j).memo := by
  unfold searchBody
  split_ifs with hold
  · exact .refl _ j
  · have fresh : wasExplored j id left = false := by simpa using hold
    dsimp only
    cases u.body? id with
    | none =>
      exact ⟨⟨[.recorded id left], rfl, .bodiless (Nat.lt_succ_self left) .nil⟩, fun hj => hj.record fresh⟩
    | some body =>
      dsimp only
      rw [walkList_eq_over, Journal.record_eq, Journal.enter_eq, Journal.leave_eq]
      obtain ⟨⟨inner, hinner, htidy⟩, hfaithful⟩ :=
        over_continues catalog h (listCalls body) ((j.record id left).write (.entered id))
      have whole : Tidy (left + 1) (.recorded id left :: .entered id :: (inner ++ [.returned id])) :=
        .body le_rfl htidy .nil
      refine ⟨⟨_, ?_, whole⟩, fun hj => ?_⟩
      · rw [Journal.write, hinner]
        simp [Journal.write, Journal.record]
      · exact (hfaithful ((hj.record fresh).write fun _ => rfl)).write fun _ => rfl

/-- **A search leaves a tidy journal**, with one level of bodies for each call left and one for the first. -/
theorem search_continues (u : CompilationUnit) (catalog : Catalog) (left : Nat) (id : MethodId) (j : Journal) :
    Journal.Continues (left + 1) j (u.search catalog left id j).memo := by
  induction left generalizing id j with
  | zero => exact searchBody_continues (fun _ j => .refl 0 j) id j
  | succ left ih => exact searchBody_continues ih id j

/-- increasing numbers below a bound are no more than that bound -/
theorem length_le_of_increasing {ns : List Nat} {bound : Nat} (h : ns.Pairwise (· < ·)) (hb : ∀ n ∈ ns, n < bound) :
    ns.length ≤ bound := by
  have distinct : ns.Nodup := h.imp fun hlt => hlt.ne
  have inside : ns ⊆ List.range bound := fun n hn => List.mem_range.2 (hb n hn)
  simpa using (distinct.subperm inside).length_le

/-- **The search walks each body at most once for each number of calls left.** With a journal it finds and remembers what
it does without one. What it records for a method grows from one time to the next and is at most `depth`; the last of it is
what the memo says. Each walk of a body comes right after something was recorded for its method. At each point at most
`depth + 1` bodies have begun and not ended. So each body is walked at most `depth + 1` times, in every unit. -/
theorem search_effort (u : CompilationUnit) (catalog : Catalog) (id : MethodId) (depth : Nat) :
    let run := u.search catalog depth id Journal.empty
    let events := run.memo.events
    (run.found = u.asserts catalog id depth ∧ run.memo.explored = (u.search catalog depth id (∅ : Explored)).memo) ∧
    (∀ m, (recordedFor m events).Pairwise (· < ·) ∧ (∀ n ∈ recordedFor m events, n ≤ depth) ∧
      run.memo.explored[m]? = (recordedFor m events).getLast?) ∧
    (∀ before after m, events = before ++ .entered m :: after →
      ∃ earlier n, before = earlier ++ [.recorded m n]) ∧
    (∀ before, before <+: events → begun before ≤ ended before + (depth + 1)) ∧
    ∀ m, events.count (.entered m) ≤ depth + 1 := by
  intro run events
  have agrees := search_view Journal.explored_view u catalog depth id .empty
  obtain ⟨⟨es, hes, tidy⟩, faithful⟩ := u.search_continues catalog depth id .empty
  have nothing : Journal.empty.Faithful := fun m => by simp [Journal.empty, recordedFor]
  have memo : run.memo.Faithful := faithful nothing
  rw [show Journal.empty.events ++ es = es from rfl] at hes
  rw [← hes] at tidy
  have bounded (m : MethodId) : ∀ n ∈ recordedFor m events, n < depth + 1 := fun n => tidy.recordedFor_lt
  refine ⟨agrees, fun m => ⟨(memo m).2, fun n hn => Nat.le_of_lt_succ (bounded m n hn), (memo m).1⟩, ?_, ?_, fun m => ?_⟩
  · exact tidy.preceded
  · exact fun before hb => tidy.open_le hb
  · exact (tidy.count_entered_le m).trans (length_le_of_increasing (memo m).2 (bounded m))

end CompilationUnit

end CallLint
