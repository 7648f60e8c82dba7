/-
The selection of rules is a filter. Keys select the rules they name, each once (`RuleKind.ofKeys_eq`); and a scan with
the selected rules reports what a scan with all rules reports of them (`Scan.run_selected`). What one rule finds does not
hang on the others, and neither does the suppression that covers it.
-/
import CallLint.Proofs.Scans.Orders

namespace CallLint

/-! ## Rules and their keys -/

theorem nodup_eraseDups {α : Type} [BEq α] [LawfulBEq α] (l : List α) : l.eraseDups.Nodup := by
  induction hlength : l.length using Nat.strong_induction_on generalizing l with
  | _ n ih =>
    cases l with
    | nil => simp
    | cons a l =>
      have shorter : (l.filter fun b => !b == a).length < n := by
        rw [← hlength, List.length_cons]
        exact Nat.lt_succ_of_le (List.length_filter_le _ _)
      rw [List.eraseDups_cons, List.nodup_cons, List.mem_eraseDups]
      exact ⟨by simp, ih _ shorter _ rfl⟩

namespace RuleKind

variable {key : String} {keys : List String} {kinds selected : List RuleKind}

theorem mem_all (k : RuleKind) : k ∈ all := by
  cases k <;> decide

/-- a key names at most one rule -/
theorem named?_eq_some {k : RuleKind} : named? key = some k ↔ Suppression.sameKey k.key key = true := by
  have apart : (dynamicCode.key.toLower == missingAssertions.key.toLower) = false := by
    have lower (s : String) : s.toLower = s.map Char.toLower := rfl
    rw [beq_eq_false_iff_ne, ne_eq, ← String.toList_inj]
    simp [lower, RuleKind.key]
  unfold named? Suppression.sameKey all
  cases hd : dynamicCode.key.toLower == key.toLower <;> cases hm : missingAssertions.key.toLower == key.toLower
  all_goals cases k <;> simp_all

theorem named?_eq_none : named? key = none ↔ ∀ k : RuleKind, Suppression.sameKey k.key key = false := by
  rw [Option.eq_none_iff_forall_ne_some]
  refine forall_congr' fun k => ?_
  rw [ne_eq, named?_eq_some, Bool.not_eq_true]

/-- rules that are selected already are not selected again -/
theorem ofKeys_eq (h : ofKeys keys selected = .ok kinds) :
    kinds = selected ++ ((keys.filterMap named?).removeAll selected).eraseDups := by
  induction keys generalizing selected with
  | nil =>
    cases h
    simp [List.removeAll]
  | cons key keys ih =>
    rw [ofKeys] at h
    cases hk : named? key with
    | none => simp [hk] at h
    | some k =>
      rw [hk] at h
      rw [ih h, List.filterMap_cons_some hk]
      by_cases hmem : k ∈ selected
      · rw [if_pos (by simpa using hmem)]
        simp [List.removeAll, hmem]
      · rw [if_neg (by simpa using hmem), List.append_assoc]
        have first : (k :: keys.filterMap named?).removeAll selected = k :: (keys.filterMap named?).removeAll selected := by
          simp [List.removeAll, hmem]
        rw [first, List.eraseDups_cons]
        simp [List.removeAll, List.filter_filter, Bool.and_comm, beq_eq_decide]

theorem ofKeys_nodup (hs : selected.Nodup) (h : ofKeys keys selected = .ok kinds) : kinds.Nodup := by
  rw [ofKeys_eq h]
  refine hs.append (nodup_eraseDups _) fun k hk hnew => ?_
  simp [List.removeAll, hk] at hnew

theorem ofKeys_named (h : ofKeys keys selected = .ok kinds) : ∀ key ∈ keys, ∃ k, named? key = some k := by
  induction keys generalizing selected with
  | nil => simp
  | cons key keys ih =>
    rw [ofKeys] at h
    cases hk : named? key with
    | none => simp [hk] at h
    | some k =>
      rw [hk] at h
      intro other hother
      rcases List.mem_cons.1 hother with rfl | hother
      · exact ⟨k, hk⟩
      · exact ih h other hother

/-- the first key that names no rule is reported -/
theorem ofKeys_error {e : UnknownRule} (h : ofKeys keys selected = .error e) :
    ∃ before after, keys = before ++ e.key :: after ∧ (∀ key ∈ before, ∃ k, named? key = some k) ∧ named? e.key = none := by
  induction keys generalizing selected with
  | nil => cases h
  | cons key keys ih =>
    rw [ofKeys] at h
    cases hk : named? key with
    | none =>
      rw [hk] at h
      cases h
      exact ⟨[], keys, rfl, by simp, hk⟩
    | some k =>
      rw [hk] at h
      obtain ⟨before, after, rfl, hbefore, hnone⟩ := ih h
      refine ⟨key :: before, after, rfl, fun other hother => ?_, hnone⟩
      rcases List.mem_cons.1 hother with rfl | hother
      · exact ⟨k, hk⟩
      · exact hbefore other hother

end RuleKind

/-! ## Restricted results -/

/-- whether the finding is one of these rules' -/
def Finding.isOf (kinds : List RuleKind) (f : Finding) : Bool :=
  kinds.any fun k => k.key == f.rule

namespace Suppression

variable {fs gs : List Finding}

/-- what becomes of a finding hangs on no other finding -/
theorem split_eq (ss : List Suppression) (fs : List Finding) :
    split ss fs = (fs.filter fun f => (ss.find? (·.covers f)).isNone,
      fs.filterMap fun f => (ss.find? (·.covers f)).map (⟨f, ·⟩)) := by
  induction fs with
  | nil => rfl
  | cons f fs ih =>
    rw [split, ih]
    cases h : ss.find? (·.covers f) <;> simp [h]

theorem split_filter (ss : List Suppression) (fs : List Finding) (keep : Finding → Bool) :
    split ss (fs.filter keep) = ((split ss fs).1.filter keep, (split ss fs).2.filter (keep ·.finding)) := by
  rw [split_eq, split_eq, List.filterMap_filter, List.filter_filterMap, List.filter_filter, List.filter_filter]
  refine Prod.ext ?_ ?_
  · simp only [Bool.and_comm]
  · refine List.filterMap_congr fun f _ => ?_
    cases hkeep : keep f <;> cases ss.find? (·.covers f) <;> simp [Option.filter, hkeep]

theorem split_perm (ss : List Suppression) (h : fs.Perm gs) :
    (split ss fs).1.Perm (split ss gs).1 ∧ (split ss fs).2.Perm (split ss gs).2 := by
  rw [split_eq, split_eq]
  exact ⟨h.filter _, h.filterMap _⟩

end Suppression

namespace ScanResult

variable {r r' : ScanResult} {keep : Finding → Bool}

/-- a result without the findings that are not kept -/
def restrict (keep : Finding → Bool) (r : ScanResult) : ScanResult :=
  ⟨r.findings.filter keep, r.suppressed.filter (keep ·.finding), r.scanned, r.failed⟩

theorem concat_restrict (keep : Finding → Bool) (rs : List ScanResult) :
    concat (rs.map (restrict keep)) = (concat rs).restrict keep := by
  induction rs with
  | nil => rfl
  | cons r rs ih =>
    rw [List.map_cons, ← append_concat, ih, ← append_concat]
    simp [append, restrict]

/-- results that say the same part by part say the same -/
theorem concat_forall₂ {rs rs' : List ScanResult} (h : List.Forall₂ Permuted rs rs') : (concat rs).Permuted (concat rs') := by
  induction h with
  | nil => exact .refl _
  | cons hr _ ih => exact hr.append ih

/-- it does not matter whether a result is sorted before or after it is restricted -/
theorem OfRules.sort_restrict (h : r.OfRules) (keep : Finding → Bool) :
    (r.restrict keep).sort.SameReport (r.sort.restrict keep) := by
  refine ⟨?_, .refl _, rfl, rfl⟩
  have perm : (r.findings.filter keep).Perm ((Finding.sort r.findings).filter keep) :=
    (List.mergeSort_perm _ _).symm.filter keep
  have sorted : Finding.sort ((Finding.sort r.findings).filter keep) = (Finding.sort r.findings).filter keep :=
    List.mergeSort_of_pairwise ((pairwise_mergeSort_cmp r.findings).filter keep)
  calc
    Finding.sort (r.findings.filter keep) = Finding.sort ((Finding.sort r.findings).filter keep) :=
      Finding.sort_eq_of_perm perm fun f hf => h f (List.mem_of_mem_filter hf)
    _ = (Finding.sort r.findings).filter keep := sorted

end ScanResult

namespace Scan

/-- the findings of selected rules are those of all rules that are theirs -/
theorem findings_selected (settings : RuleSettings) {kinds : List RuleKind} (hn : kinds.Nodup) (u : CompilationUnit) :
    (findings (kinds.map (Rule.build settings)) u).Perm
      ((findings (RuleKind.all.map (Rule.build settings)) u).filter (Finding.isOf kinds)) := by
  let ofKind (k : RuleKind) : List Finding := (Rule.build settings k).check u
  have rule {k : RuleKind} {f : Finding} (hf : f ∈ ofKind k) : f.rule = k.key := by
    obtain ⟨span, _, rfl⟩ := List.mem_map.1 hf
    cases k <;> rfl
  have isOf {k : RuleKind} {f : Finding} (hf : f ∈ ofKind k) : Finding.isOf kinds f = kinds.contains k := by
    unfold Finding.isOf
    rw [rule hf, List.contains_eq_any_beq]
    congr 1
    funext k'
    exact beq_eq_beq.2 (by rw [RuleKind.key_injective.eq_iff, eq_comm])
  have same : kinds.Perm (RuleKind.all.filter (kinds.contains ·)) := by
    refine (List.perm_ext_iff_of_nodup hn ((by decide : RuleKind.all.Nodup).filter _)).2 fun k => ?_
    simp [RuleKind.mem_all]
  unfold findings
  rw [List.flatMap_map, List.flatMap_map, List.filter_flatMap]
  calc
    (kinds.flatMap ofKind).Perm ((RuleKind.all.filter (kinds.contains ·)).flatMap ofKind) := same.flatMap_right _
    _ = (RuleKind.all.filter (kinds.contains ·)).flatMap fun k => (ofKind k).filter (Finding.isOf kinds) := by
      refine List.flatMap_congr fun k hk => (List.filter_eq_self.2 fun f hf => ?_).symm
      rw [isOf hf, (List.mem_filter.1 hk).2]
    _ = RuleKind.all.flatMap fun k => (ofKind k).filter (Finding.isOf kinds) := by
      refine flatMap_filter_of_nil fun k _ hk => List.filter_eq_nil_iff.2 fun f hf => ?_
      rw [isOf hf, hk]
      exact Bool.false_ne_true

variable [Recovery] {w : Workspace} {base : List Char} {settings : RuleSettings} {kinds : List RuleKind}

/-- a path adds of the selected rules what it adds of all rules, restricted to them -/
theorem fileResult_selected (hn : kinds.Nodup) (path : List Char) :
    BothFaultOr ScanResult.Permuted (fileResult w (kinds.map (Rule.build settings)) base path)
      ((fileResult w (RuleKind.all.map (Rule.build settings)) base path).map
        (ScanResult.restrict (Finding.isOf kinds))) := by
  unfold fileResult
  cases analyze w base path with
  | error fault => trivial
  | ok outcome =>
    cases outcome with
    | error e => exact .refl _
    | ok a =>
      have split := Suppression.split_perm a.suppressions (findings_selected settings hn a.unit)
      rw [Suppression.split_filter] at split
      exact ⟨split.1, split.2, rfl, .refl _⟩

/-- **Selected rules report what they report among all rules.** -/
theorem run_selected (w : Workspace) (settings : RuleSettings) (base : List Char) (paths : List (List Char))
    (hn : kinds.Nodup) :
    BothFaultOr (fun r r' => (r.restrict (Finding.isOf kinds)).SameReport r')
      ((run w (RuleKind.all.map (Rule.build settings)) base paths).map (·.result))
      ((run w (kinds.map (Rule.build settings)) base paths).map (·.result)) := by
  let keep := Finding.isOf kinds
  let all := fileResult w (RuleKind.all.map (Rule.build settings)) base
  have files : BothFaultOr (List.Forall₂ ScanResult.Permuted)
      (paths.mapM (fileResult w (kinds.map (Rule.build settings)) base))
      ((paths.mapM all).map (List.map (ScanResult.restrict keep))) := by
    rw [mapM_map fun path _ => rfl]
    exact mapM_forall₂ fun path _ => fileResult_selected hn path
  have permuted : BothFaultOr ScanResult.Permuted
      ((paths.mapM (fileResult w (kinds.map (Rule.build settings)) base)).map ScanResult.concat)
      (((paths.mapM all).map (List.map (ScanResult.restrict keep))).map ScanResult.concat) :=
    files.map fun rs rs' h => ScanResult.concat_forall₂ h
  have report := report_permuted permuted
  rw [run_result w (RuleKind.all.map (Rule.build settings))]
  change BothFaultOr _ ((paths.mapM all).map _) _
  generalize (run w (kinds.map (Rule.build settings)) base paths).map (·.result) = selected at report ⊢
  cases hall : paths.mapM all with
  | error fault =>
    rw [hall] at report
    cases selected with
    | error fault' => trivial
    | ok r => exact False.elim report
  | ok rs =>
    rw [hall] at report
    cases selected with
    | error fault' => exact False.elim report
    | ok r =>
      have same : r.SameReport (ScanResult.concat (rs.map (ScanResult.restrict keep))).sort := report
      rw [ScanResult.concat_restrict] at same
      exact ((fileResults_ofRules hall).sort_restrict keep).symm.trans same.symm

/-- **The selection of rules is a filter.** Keys are refused for the first one that names no rule in any case of its
letters. Else each named rule is taken once, in the order of first mention, and what these rules report is what a scan
with all rules reports of them. -/
theorem select_restricts (settings : RuleSettings) (w : Workspace) (base : List Char) (paths : List (List Char))
    (key : String) (keys : List String) :
    match RuleKind.select (key :: keys) with
    | .error e =>
      ∃ before after, key :: keys = before ++ e.key :: after ∧
        (∀ k ∈ before, ∃ kind : RuleKind, Suppression.sameKey kind.key k = true) ∧
        ∀ kind : RuleKind, Suppression.sameKey kind.key e.key = false
    | .ok kinds =>
      (∀ k ∈ key :: keys, ∃ kind : RuleKind, Suppression.sameKey kind.key k = true) ∧
      (∀ kind, kind ∈ kinds ↔ ∃ k ∈ key :: keys, Suppression.sameKey kind.key k = true) ∧
      kinds.Nodup ∧ kinds = ((key :: keys).filterMap RuleKind.named?).eraseDups ∧
      BothFaultOr (fun all selected => (all.restrict (Finding.isOf kinds)).SameReport selected)
        ((run w (RuleKind.all.map (Rule.build settings)) base paths).map (·.result))
        ((run w (kinds.map (Rule.build settings)) base paths).map (·.result)) := by
  have select : RuleKind.select (key :: keys) = RuleKind.ofKeys (key :: keys) [] := rfl
  rw [select]
  cases h : RuleKind.ofKeys (key :: keys) [] with
  | error e =>
    obtain ⟨before, after, hkeys, hbefore, hnone⟩ := RuleKind.ofKeys_error h
    exact ⟨before, after, hkeys, fun k hk => (hbefore k hk).imp fun _ => RuleKind.named?_eq_some.1,
      RuleKind.named?_eq_none.1 hnone⟩
  | ok kinds =>
    have listed : kinds = ((key :: keys).filterMap RuleKind.named?).eraseDups := by
      simpa [List.removeAll] using RuleKind.ofKeys_eq h
    have nodup : kinds.Nodup := RuleKind.ofKeys_nodup List.nodup_nil h
    refine ⟨fun k hk => (RuleKind.ofKeys_named h k hk).imp fun _ => RuleKind.named?_eq_some.1, fun kind => ?_, nodup,
      listed, run_selected w settings base paths nodup⟩
    rw [listed, List.mem_eraseDups, List.mem_filterMap]
    exact exists_congr fun k => and_congr_right' RuleKind.named?_eq_some

end Scan

end CallLint
