/-
The rules and the results of a log in the interchange format. Rules are listed by the keys of findings, each of them
once as it is written, but a listed rule goes by its own key, and keys are looked up in any case of letters. So the log
fits together when each finding spells the key of its rule as the rule does (`Sarif.ofResult_fits`), as the findings of
all scans do; a key in another case is listed under a name that no result has (`Sarif.twoSpellings_unfit`).
-/
import CallLint.Proofs.Scans.Selections
import CallLint.Report.Sarif

namespace CallLint

theorem RuleKind.named?_key (k : RuleKind) : named? k.key = some k :=
  named?_eq_some.2 (beq_self_eq_true _)

namespace Sarif

/-- no rule is listed twice, each result names one listed rule, and no rule is listed without a result -/
structure Log.Fits (l : Log) : Prop where
  distinct : (l.rules.map (·.id)).Nodup
  listed : ∀ e ∈ l.results, (l.rules.map (·.id)).count e.ruleId = 1
  used : ∀ rule ∈ l.rules, ∃ e ∈ l.results, e.ruleId = rule.id

/-- what a result says of a finding -/
structure ResultEntry.Reports (e : ResultEntry) (f : Finding) : Prop where
  rule : e.ruleId = f.rule
  level : e.level = Sarif.level f.severity
  message : e.message = f.message
  line : e.startLine = max f.line 1
  column : e.startColumn = max f.column 1

/-- the finding spells the key of its rule as the rule does, if there is such a rule -/
def SpellsKey (f : Finding) : Prop :=
  ∀ k, RuleKind.named? f.rule = some k → f.rule = k.key

variable {r : ScanResult} {fs : List Finding} {f : Finding} {key : String}

theorem ruleKeys_nodup (fs : List Finding) : (ruleKeys fs).Nodup :=
  (List.mergeSort_perm _ _).nodup_iff.2 (nodup_eraseDups _)

theorem mem_ruleKeys : key ∈ ruleKeys fs ↔ ∃ f ∈ fs, f.rule = key := by
  rw [ruleKeys, List.mem_mergeSort, List.mem_eraseDups, List.mem_map]

/-- the id under which a key is listed -/
theorem ofKey_id (key : String) : (RuleEntry.ofKey key).id = ((RuleKind.named? key).map (·.key)).getD key := by
  unfold RuleEntry.ofKey
  cases RuleKind.named? key <;> rfl

/-- a listed id that a finding has as its rule is spelled as its rule spells it -/
theorem SpellsKey.of_listed {other : String} (h : (RuleEntry.ofKey other).id = f.rule) : SpellsKey f := by
  intro k hk
  rw [ofKey_id] at h
  cases hother : RuleKind.named? other with
  | none =>
    rw [hother] at h
    obtain rfl : other = f.rule := h
    exact absurd (hother.symm.trans hk) (by simp)
  | some k' =>
    rw [hother] at h
    have key' : k'.key = f.rule := h
    rw [← key', RuleKind.named?_key] at hk
    rw [← key', Option.some.inj hk]

theorem SpellsKey.ofKey_id (h : SpellsKey f) : (RuleEntry.ofKey f.rule).id = f.rule := by
  rw [Sarif.ofKey_id]
  cases hk : RuleKind.named? f.rule with
  | none => rfl
  | some k => exact (h k hk).symm

theorem rules_ids (r : ScanResult) :
    (Log.ofResult r).rules.map (·.id) = (ruleKeys r.findings).map fun key => (RuleEntry.ofKey key).id :=
  List.map_map

theorem fits_iff (r : ScanResult) : (Log.ofResult r).Fits ↔ ∀ f ∈ r.findings, SpellsKey f := by
  constructor
  · intro h f hf
    have once := h.listed (ResultEntry.ofFinding f) (List.mem_map_of_mem hf)
    have listed : f.rule ∈ (Log.ofResult r).rules.map (·.id) := List.count_pos_iff.1 (once ▸ Nat.one_pos)
    rw [rules_ids] at listed
    obtain ⟨other, -, hother⟩ := List.mem_map.1 listed
    exact .of_listed hother
  · intro h
    have ids : (Log.ofResult r).rules.map (·.id) = ruleKeys r.findings := by
      rw [rules_ids]
      refine (List.map_congr_left fun key hkey => ?_).trans (List.map_id _)
      obtain ⟨f, hf, rfl⟩ := mem_ruleKeys.1 hkey
      exact (h f hf).ofKey_id
    refine ⟨ids ▸ ruleKeys_nodup _, fun e he => ?_, fun rule hrule => ?_⟩
    · obtain ⟨f, hf, rfl⟩ := List.mem_map.1 he
      rw [ids]
      exact List.count_eq_one_of_mem (ruleKeys_nodup _) (mem_ruleKeys.2 ⟨f, hf, rfl⟩)
    · have hid : rule.id ∈ ruleKeys r.findings := ids ▸ List.mem_map_of_mem hrule
      obtain ⟨f, hf, hkey⟩ := mem_ruleKeys.1 hid
      exact ⟨.ofFinding f, List.mem_map_of_mem hf, hkey⟩

/-- what a rule says of a finding bears the rule's own key -/
theorem SpellsKey.of_rule (h : f.OfRule) : SpellsKey f := by
  obtain ⟨k, hrule, -, -⟩ := h
  intro k' hk'
  rw [hrule, RuleKind.named?_key] at hk'
  rw [hrule, Option.some.inj hk']

theorem run_spellsKey [Recovery] {w : Workspace} {rules : List Rule} {base : List Char} {paths : List (List Char)}
    {logged : Scan.Logged} (h : Scan.run w rules base paths = .ok logged) : ∀ f ∈ logged.result.findings, SpellsKey f := by
  intro f hf
  obtain ⟨rs, hfiles, sorted⟩ := Scan.run_eq_ok h
  rw [sorted] at hf
  exact .of_rule (Scan.fileResults_ofRules hfiles f (List.mem_mergeSort.1 hf))

/-- **A log fits together when findings spell keys as rules do.** Its results are those of the findings, one by one, at
lines and columns from 1 on. The rules behind the results are those that are listed. No rule is listed twice, and each
result names a listed one, exactly if no finding has a rule's key in other letters; the findings of a scan have none. -/
theorem ofResult_fits (r : ScanResult) :
    List.Forall₂ ResultEntry.Reports (Log.ofResult r).results r.findings ∧
    (∀ e ∈ (Log.ofResult r).results, 1 ≤ e.startLine ∧ 1 ≤ e.startColumn) ∧
    (∀ rule, rule ∈ (Log.ofResult r).rules ↔ ∃ e ∈ (Log.ofResult r).results, rule = .ofKey e.ruleId) ∧
    ((Log.ofResult r).Fits ↔ ∀ f ∈ r.findings, SpellsKey f) ∧
    ∀ [Recovery] (w : Workspace) (rules : List Rule) (base : List Char) (paths : List (List Char)) (logged : Scan.Logged),
      Scan.run w rules base paths = .ok logged → logged.result = r → (Log.ofResult r).Fits := by
  refine ⟨?_, fun e he => ?_, fun rule => ?_, fits_iff r, ?_⟩
  · exact List.forall₂_map_left_iff.2 (List.forall₂_same.2 fun f _ => ⟨rfl, rfl, rfl, rfl, rfl⟩)
  · obtain ⟨f, -, rfl⟩ := List.mem_map.1 he
    exact ⟨le_max_right _ _, le_max_right _ _⟩
  · constructor
    · intro hrule
      obtain ⟨key, hkey, rfl⟩ := List.mem_map.1 hrule
      obtain ⟨f, hf, rfl⟩ := mem_ruleKeys.1 hkey
      exact ⟨.ofFinding f, List.mem_map_of_mem hf, rfl⟩
    · rintro ⟨e, he, rfl⟩
      obtain ⟨f, hf, rfl⟩ := List.mem_map.1 he
      exact List.mem_map_of_mem (mem_ruleKeys.2 ⟨f, hf, rfl⟩)
  · rintro recovery w rules base paths logged h rfl
    exact (fits_iff _).2 (run_spellsKey h)

/-- two findings of one rule, whose key is spelled in two ways -/
def twoSpellings : ScanResult :=
  ⟨[⟨"S1523", "", "T.java", 1, 1, .warning⟩, ⟨"s1523", "", "T.java", 2, 1, .warning⟩], [], 1, []⟩

/-- The rule is listed twice under one id, and the second result names no listed rule. -/
theorem twoSpellings_unfit :
    (Log.ofResult twoSpellings).rules.map (·.id) = ["S1523", "S1523"] ∧
      (∃ e ∈ (Log.ofResult twoSpellings).results, e.ruleId ∉ (Log.ofResult twoSpellings).rules.map (·.id)) ∧
      ¬ (Log.ofResult twoSpellings).Fits := by
  have keys : ruleKeys twoSpellings.findings = ["S1523", "s1523"] :=
    List.mergeSort_of_pairwise (l := ["S1523", "s1523"]) (by decide)
  have upper : RuleKind.named? "S1523" = some .dynamicCode := RuleKind.named?_key .dynamicCode
  have lower : RuleKind.named? "s1523" = some .dynamicCode := by decide +kernel
  have ids : (Log.ofResult twoSpellings).rules.map (·.id) = ["S1523", "S1523"] := by
    rw [rules_ids, keys]
    simp [ofKey_id, upper, lower, RuleKind.key]
  refine ⟨ids, ⟨.ofFinding ⟨"s1523", "", "T.java", 2, 1, .warning⟩, by decide +kernel, ?_⟩, fun h => ?_⟩
  · rw [ids]
    decide
  · have distinct := h.distinct
    rw [ids] at distinct
    revert distinct
    decide

end Sarif

end CallLint
