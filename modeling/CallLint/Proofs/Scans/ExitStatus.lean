/-
Exit codes of scans. A scan is refused for an unknown format, a configuration that cannot be loaded or does not pass its
checks (`Config.validate`), or a path that leads nowhere (`Lint.Refused`); else it starts with the plan of the
configuration and the selected files (`Lint.Starts`).

- `Config.plan_validated`: a configuration that passes its checks has a plan, and another is refused for the first
  check that it fails;
- `Scan.run_isClean`: a result is clean when the suppressions of each file cover all findings in it;
- `Lint.run_exit`: a refused scan ends with 2, a scan with an active finding with 1 and any other one with 0, unless a
  selected file holds a string without text. Then the scan ends without an exit code.
-/
import CallLint.Command.Lint
import CallLint.Proofs.Scans.Selections

namespace CallLint

/-! ## Checks of a configuration -/

namespace RuleKind

variable {keys : List String}

theorem select_named {kinds : List RuleKind} (h : select keys = .ok kinds) :
    ∀ key ∈ keys, ∃ k, named? key = some k := by
  unfold select at h
  split at h
  · rename_i hempty
    rw [List.isEmpty_iff.1 hempty]
    exact nofun
  · exact ofKeys_named h

theorem select_error {e : UnknownRule} (h : select keys = .error e) :
    keys.find? (fun key => (named? key).isNone) = some e.key := by
  unfold select at h
  split at h
  · cases h
  · obtain ⟨before, after, rfl, hbefore, hnone⟩ := ofKeys_error h
    rw [List.find?_eq_some_iff_append]
    refine ⟨by rw [hnone]; rfl, before, after, rfl, fun key hkey => ?_⟩
    obtain ⟨k, hk⟩ := hbefore key hkey
    rw [hk]
    rfl

end RuleKind

namespace Config

/-- the checks of a configuration: every key names a rule, every pattern can be read, and the depth is in its range -/
def validate (c : Config) : Except ConfigError Unit :=
  match c.rules.find? fun key => (RuleKind.named? key).isNone with
  | some key => .error (.unknownRule key)
  | none =>
    match c.exclusions with
    | .error e => .error e
    | .ok _ =>
      if c.settings.callDepth ≤ callDepthLimit then .ok () else .error (.callDepthOutOfRange c.settings.callDepth)

/-- **A configuration is planned for when it passes its checks.** What the plan is made of can then be made of it, and
a configuration that does not pass is refused for the check that it fails first. -/
theorem plan_validated (c : Config) :
    match c.validate with
    | .error e => c.plan = .error e
    | .ok _ => ∃ kinds exclusions, RuleKind.select c.rules = .ok kinds ∧ c.exclusions = .ok exclusions ∧
        c.plan = .ok ⟨kinds, c.settings, exclusions⟩ := by
  unfold validate plan
  cases hselect : RuleKind.select c.rules with
  | error e =>
    rw [RuleKind.select_error hselect]
    rfl
  | ok kinds =>
    have named : c.rules.find? (fun key => (RuleKind.named? key).isNone) = none := by
      rw [List.find?_eq_none]
      intro key hkey
      obtain ⟨k, hk⟩ := RuleKind.select_named hselect key hkey
      simp [hk]
    rw [named]
    cases hexclusions : c.exclusions with
    | error e => rfl
    | ok exclusions =>
      by_cases hdepth : c.settings.callDepth ≤ callDepthLimit
      · simp only [if_pos hdepth]
        refine ⟨kinds, exclusions, rfl, rfl, ?_⟩
        show (if _ then _ else _) = _
        rw [if_neg (Nat.not_lt.2 hdepth)]
        rfl
      · simp only [if_neg hdepth]
        show (if _ then _ else _) = _
        rw [if_pos (Nat.lt_of_not_le hdepth)]

end Config

/-! ## Clean results -/

namespace Suppression

/-- a finding stays active when nothing covers it -/
theorem mem_split {ss : List Suppression} {fs : List Finding} {f : Finding} :
    f ∈ (split ss fs).1 ↔ f ∈ fs ∧ ∀ s ∈ ss, s.covers f = false := by
  induction fs with
  | nil => simp [split]
  | cons g fs ih =>
    rw [split]
    cases hfind : ss.find? (·.covers g) with
    | some s =>
      have hs : s ∈ ss := List.mem_of_find?_eq_some hfind
      have hcovers : s.covers g = true := List.find?_some (p := fun t : Suppression => t.covers g) hfind
      refine ih.trans ⟨fun h => ⟨List.mem_cons_of_mem _ h.1, h.2⟩, fun h => ⟨?_, h.2⟩⟩
      rcases List.mem_cons.1 h.1 with rfl | hf
      · exact absurd hcovers (by simp [h.2 s hs])
      · exact hf
    | none =>
      have huncovered : ∀ s ∈ ss, s.covers g = false := by simpa using hfind
      simp only [List.mem_cons, ih]
      constructor
      · rintro (rfl | h)
        · exact ⟨.inl rfl, huncovered⟩
        · exact ⟨.inr h.1, h.2⟩
      · rintro ⟨rfl | h, hnone⟩
        · exact .inl rfl
        · exact .inr ⟨h, hnone⟩

end Suppression

namespace Scan

variable [Recovery] {w : Workspace} {rules : List Rule} {base path : List Char} {paths : List (List Char)}

/-- one of the rules finds something in the file at a path that no suppression of the file covers -/
def HasActive (w : Workspace) (rules : List Rule) (base path : List Char) : Prop :=
  ∃ a, analyze w base path = .ok (.ok a) ∧ ∃ f ∈ findings rules a.unit, ∀ s ∈ a.suppressions, s.covers f = false

theorem fileResult_findings {r : ScanResult} (h : fileResult w rules base path = .ok r) :
    r.findings = [] ↔ ¬ HasActive w rules base path := by
  unfold fileResult at h
  unfold HasActive
  cases hanalyze : analyze w base path with
  | error fault =>
    rw [hanalyze] at h
    cases h
  | ok outcome =>
    rw [hanalyze] at h
    obtain rfl := Except.ok.inj h
    cases outcome with
    | error e => simp [pathResult, failure]
    | ok a =>
      have hmem : ∀ f, f ∈ (pathResult rules path (.ok a)).findings ↔
          f ∈ findings rules a.unit ∧ ∀ s ∈ a.suppressions, s.covers f = false := fun f => Suppression.mem_split
      rw [List.eq_nil_iff_forall_not_mem]
      simp [hmem]

/-- **A result is clean** when the suppressions of each file cover all that is found in it. -/
theorem run_isClean {logged : Logged} (h : run w rules base paths = .ok logged) :
    logged.result.isClean = true ↔ ∀ path ∈ paths, ¬ HasActive w rules base path := by
  obtain ⟨rs, hfiles, hsorted⟩ := run_eq_ok h
  have hempty : logged.result.isClean = true ↔ ∀ r ∈ rs, r.findings = [] := by
    rw [hsorted, ScanResult.isClean, ScanResult.sort, Finding.sort, (List.mergeSort_perm _ _).isEmpty_eq,
      List.isEmpty_iff, ScanResult.concat, List.flatMap_eq_nil_iff]
  rw [hempty]
  have hfile := mapM_eq_ok.1 hfiles
  clear h hfiles hsorted hempty
  induction hfile with
  | nil => simp
  | cons hr _ ih =>
    rw [List.forall_mem_cons, List.forall_mem_cons]
    exact and_congr (fileResult_findings hr) ih

/-- A scan stops at a file exactly when one of the files cannot be analyzed for a string without text. -/
theorem run_stops (w : Workspace) (rules : List Rule) (base : List Char) (paths : List (List Char)) :
    match run w rules base paths with
    | .error fault => ∃ path ∈ paths, analyze w base path = .error fault
    | .ok _ => ∀ path ∈ paths, (analyze w base path).isOk := by
  cases hrun : run w rules base paths with
  | error fault => exact run_eq_error hrun
  | ok logged =>
    intro path hpath
    obtain ⟨rs, hfiles, -⟩ := run_eq_ok hrun
    obtain ⟨r, -, h⟩ := forall₂_mem_left (mapM_eq_ok.1 hfiles) hpath
    unfold fileResult at h
    cases hanalyze : analyze w base path with
    | error fault => simp [hanalyze, Except.map] at h
    | ok outcome => rfl

end Scan

/-! ## Refused scans -/

theorem ReportFormat.read?_eq_none {format : String} : read? format = none ↔ format ∉ ["pretty", "json", "sarif"] := by
  unfold read?
  split <;> simp_all

/-- The path of a selection leads somewhere. -/
theorem Selection.ofPath_isOk (w : Workspace) (exclusions : Globs) (given : List Char) :
    (ofPath w exclusions given).isOk = (w.treeAt given).isOk := by
  unfold ofPath Workspace.treeAt
  cases w.resolve given with
  | error e => rfl
  | ok place =>
    simp only [Except.bind, bind]
    cases w.root.at? place with
    | none => rfl
    | some t => cases t <;> rfl

namespace Lint

variable {w : Workspace} {o : LintOptions}

/-- a scan that does not start -/
inductive Refused (w : Workspace) (o : LintOptions) : Prop where
  | format (h : o.format ∉ ["pretty", "json", "sarif"])
  | unloaded {e : ConfigError} (h : loadConfig w (configFile? w o) = .error e)
  | invalid {c : Config} {e : ConfigError} (hload : loadConfig w (configFile? w o) = .ok c)
      (h : (c.override o.overrides).validate = .error e)
  | unreachable {e : FileError} (h : w.treeAt o.path.toList = .error e)

/-- a scan that starts, with its plan and the selected files -/
structure Starts (w : Workspace) (o : LintOptions) (plan : ScanPlan) (selection : Selection) : Prop where
  planned : ∃ c, loadConfig w (configFile? w o) = .ok c ∧ (c.override o.overrides).plan = .ok plan
  selected : Selection.ofPath w plan.exclusions o.path.toList = .ok selection

/-- the rules of a plan -/
def rulesOf (plan : ScanPlan) : List Rule :=
  plan.rules.map (Rule.build plan.settings)

theorem Starts.not_refused {plan : ScanPlan} {selection : Selection} (h : Starts w o plan selection)
    (hformat : o.format ∈ ["pretty", "json", "sarif"]) : ¬ Refused w o := by
  obtain ⟨c, hload, hplan⟩ := h.planned
  intro hrefused
  cases hrefused with
  | format hnone => exact hnone hformat
  | unloaded hfails => rw [hfails] at hload; cases hload
  | @invalid c' e hload' hfails =>
    obtain rfl : c' = c := Except.ok.inj (hload'.symm.trans hload)
    have refused := Config.plan_validated (c'.override o.overrides)
    rw [hfails] at refused
    rw [refused] at hplan
    cases hplan
  | unreachable hfails =>
    have reached := Selection.ofPath_isOk w plan.exclusions o.path.toList
    rw [h.selected, hfails] at reached
    cases reached

section Runs

variable [Recovery]

/-- A scan is refused with the code of failures, or it starts. -/
theorem run_cases (w : Workspace) (color : Bool) (o : LintOptions) :
    (Refused w o ∧ ∃ error log, run w color o = .ok (failure error log)) ∨
      ¬ Refused w o ∧ ∃ plan selection log render, Starts w o plan selection ∧
        run w color o = scan w plan selection log render := by
  unfold run
  dsimp only
  cases hformat : ReportFormat.read? o.format with
  | none => exact .inl ⟨.format (ReportFormat.read?_eq_none.1 hformat), _, _, rfl⟩
  | some format =>
    have known : o.format ∈ ["pretty", "json", "sarif"] := by
      by_contra hnone
      rw [ReportFormat.read?_eq_none.2 hnone] at hformat
      cases hformat
    cases hload : loadConfig w (configFile? w o) with
    | error e => exact .inl ⟨.unloaded hload, _, _, rfl⟩
    | ok c =>
      have validated := Config.plan_validated (c.override o.overrides)
      cases hvalidate : (c.override o.overrides).validate with
      | error e =>
        rw [hvalidate] at validated
        simp only [validated]
        exact .inl ⟨.invalid hload hvalidate, _, _, rfl⟩
      | ok _ =>
        rw [hvalidate] at validated
        obtain ⟨kinds, exclusions, -, -, hplan⟩ := validated
        simp only [hplan]
        have reached := Selection.ofPath_isOk w exclusions o.path.toList
        cases hselect : Selection.ofPath w exclusions o.path.toList with
        | error e =>
          rw [hselect] at reached
          cases htree : w.treeAt o.path.toList with
          | ok t => rw [htree] at reached; cases reached
          | error e' => exact .inl ⟨.unreachable htree, _, _, rfl⟩
        | ok selection =>
          have starts : Starts w o ⟨kinds, (c.override o.overrides).settings, exclusions⟩ selection :=
            ⟨⟨c, hload, hplan⟩, hselect⟩
          exact .inr ⟨starts.not_refused known, _, selection, _, _, starts, rfl⟩

/-- With files to scan, the status says whether the result of the scan is clean. -/
theorem scan_status {selection : Selection} (hne : selection.paths ≠ []) (w : Workspace) (plan : ScanPlan)
    (log : List LogLine) (render : ScanResult → String) :
    (scan w plan selection log render).map (·.status) =
      (Scan.run w (rulesOf plan) selection.base selection.paths).map fun scanned =>
        if scanned.result.isClean then .clean else .findings := by
  unfold scan
  rw [if_neg (by simpa using hne)]
  unfold rulesOf
  cases Scan.run w (plan.rules.map (Rule.build plan.settings)) selection.base selection.paths <;> rfl

/-- The exit code of a scan that has started says whether something active was found. -/
theorem scan_exit (w : Workspace) (plan : ScanPlan) (selection : Selection) (log : List LogLine)
    (render : ScanResult → String) :
    match scan w plan selection log render with
    | .ok outcome =>
      (∀ path ∈ selection.paths, (Scan.analyze w selection.base path).isOk) ∧
        (outcome.status.code = 1 ↔ ∃ path ∈ selection.paths, Scan.HasActive w (rulesOf plan) selection.base path) ∧
        (outcome.status.code = 0 ↔ ∀ path ∈ selection.paths, ¬ Scan.HasActive w (rulesOf plan) selection.base path)
    | .error fault => ∃ path ∈ selection.paths, Scan.analyze w selection.base path = .error fault := by
  by_cases hempty : selection.paths = []
  · have status : scan w plan selection log render = .ok ⟨.clean, "", "Warning: no files to scan\n", log⟩ := by
      rw [scan, if_pos (by simp [hempty])]
      rfl
    rw [status, hempty]
    exact ⟨nofun, iff_of_false nofun nofun, iff_of_true rfl nofun⟩
  · have status := scan_status hempty w plan log render
    have stops := Scan.run_stops w (rulesOf plan) selection.base selection.paths
    cases hrun : Scan.run w (rulesOf plan) selection.base selection.paths with
    | error fault =>
      rw [hrun] at status stops
      cases hscan : scan w plan selection log render with
      | error fault' => rw [hscan] at status; cases status; exact stops
      | ok outcome => rw [hscan] at status; cases status
    | ok scanned =>
      rw [hrun] at status stops
      have clean := Scan.run_isClean hrun
      cases hscan : scan w plan selection log render with
      | error fault => rw [hscan] at status; cases status
      | ok outcome =>
        rw [hscan] at status
        have status : outcome.status = if scanned.result.isClean then .clean else .findings := Except.ok.inj status
        refine ⟨stops, ?_⟩
        rw [status]
        by_cases hclean : scanned.result.isClean = true
        · have none := clean.1 hclean
          rw [if_pos hclean]
          exact ⟨iff_of_false nofun fun ⟨path, hpath, h⟩ => none path hpath h, iff_of_true rfl none⟩
        · have some := mt clean.2 hclean
          rw [if_neg hclean]
          exact ⟨iff_of_true rfl (by simpa using some), iff_of_false nofun some⟩

/-- **Exit codes.** A refused scan ends with 2. Any other one starts, and ends with 1 when one of the rules finds
something in a selected file that the file does not suppress, with 0 when there is no such file, and without a code when
a selected file holds a string without text. What a scan makes of a configuration can be made of each that passes its
checks. -/
theorem run_exit (w : Workspace) (color : Bool) (o : LintOptions) :
    (Refused w o → ∃ outcome, run w color o = .ok outcome ∧ outcome.status.code = 2) ∧
      (¬ Refused w o → ∃ plan selection, Starts w o plan selection ∧
        match run w color o with
        | .ok outcome =>
          (∀ path ∈ selection.paths, (Scan.analyze w selection.base path).isOk) ∧
            (outcome.status.code = 1 ↔ ∃ path ∈ selection.paths, Scan.HasActive w (rulesOf plan) selection.base path) ∧
            (outcome.status.code = 0 ↔ ∀ path ∈ selection.paths, ¬ Scan.HasActive w (rulesOf plan) selection.base path)
        | .error fault => ∃ path ∈ selection.paths, Scan.analyze w selection.base path = .error fault ∧
            ∃ bytes, w.read (Scan.absolutePath selection.base path) = .ok bytes ∧
              (Source.ofBytes bytes).root.Faulty (Source.ofBytes bytes)) ∧
      ∀ c : Config, c.validate = .ok () →
        (∃ exclusions, c.exclusions = .ok exclusions) ∧ ∃ kinds, RuleKind.select c.rules = .ok kinds := by
  refine ⟨fun hrefused => ?_, fun hstarts => ?_, fun c hc => ?_⟩
  · obtain ⟨-, error, log, h⟩ | ⟨hnot, -⟩ := run_cases w color o
    · exact ⟨failure error log, h, rfl⟩
    · exact absurd hrefused hnot
  · obtain ⟨hrefused, -⟩ | ⟨-, plan, selection, log, render, starts, h⟩ := run_cases w color o
    · exact absurd hrefused hstarts
    · refine ⟨plan, selection, starts, ?_⟩
      have exit := scan_exit w plan selection log render
      rw [h]
      cases hscan : scan w plan selection log render with
      | ok outcome => rwa [hscan] at exit
      | error fault =>
        rw [hscan] at exit
        obtain ⟨path, hpath, hstops⟩ := exit
        exact ⟨path, hpath, hstops, Scan.faulty_of_analyze hstops⟩
  · have validated := c.plan_validated
    rw [hc] at validated
    obtain ⟨kinds, exclusions, hkinds, hexclusions, -⟩ := validated
    exact ⟨⟨exclusions, hexclusions⟩, kinds, hkinds⟩

end Runs

/-- A scan of a file with a text block whose shared indentation ends inside a character has no exit code. -/
theorem sharedIndent_noExit :
    let o : LintOptions := ⟨"T.java", none, "json", ⟨[], none, none⟩, false⟩
    (run Scan.indentedWorkspace false o).isOk = false ∧ ¬ Refused Scan.indentedWorkspace o := by
  intro o
  refine ⟨by decide +kernel, fun h => ?_⟩
  have hfile : configFile? Scan.indentedWorkspace o = none := by decide +kernel
  cases h with
  | format h => exact h (by decide)
  | unloaded h =>
    rw [hfile] at h
    cases h
  | @invalid c e hload h =>
    rw [hfile] at hload
    cases hload
    have hvalid : ((Config.standard.override o.overrides).validate).isOk = true := by decide +kernel
    rw [h] at hvalid
    cases hvalid
  | unreachable h =>
    have hreached : (Scan.indentedWorkspace.treeAt o.path.toList).isOk = true := by decide +kernel
    rw [h] at hreached
    cases hreached

end Lint

end CallLint
