/-
How the settings of the rule on tests without assertions decide what it reports. More entries of custom methods and more
calls to follow let more methods assert, so they only take findings away: `reported_comma` for lists of entries joined
by a comma, `reported_depth` for the depth. What is said at a method does not depend on the settings, and the order is
that of the methods, so the findings that remain keep their text and their order.
-/
import CallLint.Proofs.AssertionReach
import CallLint.Proofs.Entries
import CallLint.Rule.Basic

namespace CallLint

theorem Catalog.covers_iff {c : Catalog} {site : CallSite} : c.covers site = true ↔ ∃ s ∈ c, s.covers site = true :=
  List.any_eq_true

theorem Catalog.covers_union (c d : Catalog) (site : CallSite) :
    (c.union d).covers site = true ↔ c.covers site = true ∨ d.covers site = true := by
  simp only [covers_iff, mem_union]
  grind

namespace CompilationUnit

variable {u : CompilationUnit} {c d both : Catalog}

/-! ## Larger catalogs and more calls -/

theorem holdsAssertion_or (h : ∀ site, both.covers site = true ↔ c.covers site = true ∨ d.covers site = true)
    (id : MethodId) : u.HoldsAssertion both id ↔ u.HoldsAssertion c id ∨ u.HoldsAssertion d id := by
  simp only [HoldsAssertion, h]
  grind

theorem chainToAssertion_or (h : ∀ site, both.covers site = true ↔ c.covers site = true ∨ d.covers site = true)
    (id : MethodId) (path : List MethodId) :
    u.ChainToAssertion both id path ↔ u.ChainToAssertion c id path ∨ u.ChainToAssertion d id path := by
  rw [ChainToAssertion, ChainToAssertion, ChainToAssertion, holdsAssertion_or h, and_or_left]

/-- a method asserts with two catalogs together when it asserts with one of them -/
theorem asserts_or (h : ∀ site, both.covers site = true ↔ c.covers site = true ∨ d.covers site = true)
    (id : MethodId) (depth : Nat) :
    u.asserts both id depth = (u.asserts c id depth || u.asserts d id depth) := by
  rw [Bool.eq_iff_iff, Bool.or_eq_true]
  constructor
  · intro hasserts
    obtain ⟨path, hl, hp⟩ := search_found hasserts
    exact ((chainToAssertion_or h id path).1 hp).imp (asserts_of_chain hl) (asserts_of_chain hl)
  · rintro (hasserts | hasserts) <;> obtain ⟨path, hl, hp⟩ := search_found hasserts
    · exact asserts_of_chain hl ((chainToAssertion_or h id path).2 (.inl hp))
    · exact asserts_of_chain hl ((chainToAssertion_or h id path).2 (.inr hp))

theorem asserts_mono {id : MethodId} {n m : Nat} (hnm : n ≤ m) (h : u.asserts c id n = true) :
    u.asserts c id m = true := by
  obtain ⟨path, hl, hp⟩ := search_found h
  exact asserts_of_chain (hl.trans hnm) hp

end CompilationUnit

/-! ## What is reported -/

namespace MissingAssertions

/-- the methods that the rule reports under given settings -/
def reported (u : CompilationUnit) (settings : RuleSettings) : List MethodId :=
  u.methodIds.filter (isViolation u (catalog settings) settings.callDepth)

/-- what is said at a method when it is reported -/
def finding? (u : CompilationUnit) (id : MethodId) : Option Finding :=
  let kind := RuleKind.missingAssertions
  (u.methodAt? id).map fun m => .ofSpan kind.key kind.severity u.path m.nameSpan kind.message

theorem catalog_comma_covers (a b : String) (n : Nat) (site : CallSite) :
    (catalog ⟨a ++ "," ++ b, n⟩).covers site = true ↔
      (catalog ⟨a, n⟩).covers site = true ∨ (catalog ⟨b, n⟩).covers site = true := by
  simp only [catalog, Catalog.covers_iff, Catalog.mem_union, EntryList.mem_catalog, EntryList.read_append_comma,
    EntryList.append, List.mem_append]
  grind

theorem isViolation_iff {u : CompilationUnit} {assertions : Catalog} {n : Nat} {id : MethodId} :
    isViolation u assertions n id = true ↔
      (∃ m, u.methodAt? id = some m ∧ isTest u m = true) ∧ u.asserts assertions id n = false := by
  unfold isViolation
  split <;> simp_all

theorem isViolation_comma (u : CompilationUnit) (a b : String) (n : Nat) (id : MethodId) :
    isViolation u (catalog ⟨a ++ "," ++ b, n⟩) n id =
      (isViolation u (catalog ⟨a, n⟩) n id && isViolation u (catalog ⟨b, n⟩) n id) := by
  rw [Bool.eq_iff_iff, Bool.and_eq_true, isViolation_iff, isViolation_iff, isViolation_iff,
    CompilationUnit.asserts_or (catalog_comma_covers a b n), Bool.or_eq_false_iff]
  grind

theorem isViolation_antitone {u : CompilationUnit} {assertions : Catalog} {id : MethodId} {n m : Nat} (hnm : n ≤ m)
    (h : isViolation u assertions m id = true) : isViolation u assertions n id = true := by
  obtain ⟨htest, hasserts⟩ := isViolation_iff.1 h
  refine isViolation_iff.2 ⟨htest, Bool.eq_false_iff.2 fun hn => ?_⟩
  rw [CompilationUnit.asserts_mono hnm hn] at hasserts
  cases hasserts

theorem mem_reported {u : CompilationUnit} {settings : RuleSettings} {id : MethodId} :
    id ∈ reported u settings ↔ id ∈ u.methodIds ∧ isViolation u (catalog settings) settings.callDepth id = true :=
  List.mem_filter

/-- what two settings both report, in the order of the methods -/
theorem reported_filter_mem (u : CompilationUnit) (s t : RuleSettings) :
    (reported u s).filter (· ∈ reported u t) =
      u.methodIds.filter fun id => isViolation u (catalog s) s.callDepth id && isViolation u (catalog t) t.callDepth id := by
  change (u.methodIds.filter _).filter _ = _
  rw [List.filter_filter]
  refine List.filter_congr fun id hid => ?_
  rw [Bool.and_comm]
  congr 1
  simp [mem_reported, hid]

/-- the methods that are reported with two lists of entries are those reported with each of them -/
theorem reported_comma (u : CompilationUnit) (a b : String) (n : Nat) :
    reported u ⟨a ++ "," ++ b, n⟩ = (reported u ⟨a, n⟩).filter (· ∈ reported u ⟨b, n⟩) := by
  rw [reported_filter_mem, reported]
  exact List.filter_congr fun id _ => isViolation_comma u a b n id

/-- the methods that are reported with more calls to follow are among those reported with fewer -/
theorem reported_depth (u : CompilationUnit) (spec : String) {n m : Nat} (hnm : n ≤ m) :
    reported u ⟨spec, m⟩ = (reported u ⟨spec, n⟩).filter (· ∈ reported u ⟨spec, m⟩) := by
  rw [reported_filter_mem, reported]
  refine List.filter_congr fun id _ => ?_
  rw [Bool.eq_iff_iff, Bool.and_eq_true]
  exact ⟨fun h => ⟨isViolation_antitone hnm h, h⟩, fun h => h.2⟩

/-- the findings of the rule are those of the methods it reports -/
theorem check_eq (u : CompilationUnit) (settings : RuleSettings) :
    (Rule.build settings .missingAssertions).check u = (reported u settings).filterMap (finding? u) := by
  simp only [Rule.build, Rule.check, Rule.violations, violations, List.map_filterMap, Option.map_map]
  rfl

theorem finding?_isSome {u : CompilationUnit} {settings : RuleSettings} {id : MethodId} (h : id ∈ reported u settings) :
    (finding? u id).isSome = true := by
  obtain ⟨⟨m, hm, -⟩, -⟩ := isViolation_iff.1 (mem_reported.1 h).2
  simp [finding?, hm]

/-- **More settings only take findings away.** Two lists of entries joined by a comma report the methods that each of
them reports; more calls to follow report none that fewer do not report. Each reported method has its own finding, which
no setting changes, and findings stand in the order of the methods; so what remains keeps its text and its order. -/
theorem reported_antitone (u : CompilationUnit) :
    (∀ (a b : String) (n : Nat),
      (∀ id, id ∈ reported u ⟨a ++ "," ++ b, n⟩ ↔ id ∈ reported u ⟨a, n⟩ ∧ id ∈ reported u ⟨b, n⟩) ∧
      ((Rule.build ⟨a ++ "," ++ b, n⟩ .missingAssertions).check u).Sublist
        ((Rule.build ⟨a, n⟩ .missingAssertions).check u) ∧
      ((Rule.build ⟨a ++ "," ++ b, n⟩ .missingAssertions).check u).Sublist
        ((Rule.build ⟨b, n⟩ .missingAssertions).check u)) ∧
    (∀ (spec : String) (n m : Nat), n ≤ m →
      (∀ id ∈ reported u ⟨spec, m⟩, id ∈ reported u ⟨spec, n⟩) ∧
      ((Rule.build ⟨spec, m⟩ .missingAssertions).check u).Sublist
        ((Rule.build ⟨spec, n⟩ .missingAssertions).check u)) ∧
    ∀ settings : RuleSettings, (reported u settings).Sublist u.methodIds ∧
      (∀ id ∈ reported u settings, (finding? u id).isSome = true) ∧
      (Rule.build settings .missingAssertions).check u = (reported u settings).filterMap (finding? u) := by
  have findings {s t : RuleSettings} (h : (reported u s).Sublist (reported u t)) :
      ((Rule.build s .missingAssertions).check u).Sublist ((Rule.build t .missingAssertions).check u) := by
    rw [check_eq, check_eq]
    exact h.filterMap _
  have comma_left (a b : String) (n : Nat) : (reported u ⟨a ++ "," ++ b, n⟩).Sublist (reported u ⟨a, n⟩) := by
    rw [reported_comma]
    exact List.filter_sublist
  have comma_right (a b : String) (n : Nat) : (reported u ⟨a ++ "," ++ b, n⟩).Sublist (reported u ⟨b, n⟩) := by
    have : reported u ⟨a ++ "," ++ b, n⟩ = (reported u ⟨b, n⟩).filter (· ∈ reported u ⟨a, n⟩) := by
      rw [reported_comma, reported_filter_mem, reported_filter_mem]
      simp only [Bool.and_comm]
    rw [this]
    exact List.filter_sublist
  have depth (spec : String) (n m : Nat) (hnm : n ≤ m) : (reported u ⟨spec, m⟩).Sublist (reported u ⟨spec, n⟩) := by
    rw [reported_depth u spec hnm]
    exact List.filter_sublist
  refine ⟨fun a b n => ⟨fun id => ?_, findings (comma_left a b n), findings (comma_right a b n)⟩,
    fun spec n m hnm => ⟨(depth spec n m hnm).subset, findings (depth spec n m hnm)⟩,
    fun settings => ⟨List.filter_sublist, fun _ => finding?_isSome, check_eq u settings⟩⟩
  rw [reported_comma, List.mem_filter, decide_eq_true_eq]

end MissingAssertions

end CallLint
