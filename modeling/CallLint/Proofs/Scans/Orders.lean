/-
The order of the files does not show in what a scan says. Findings that are listed at one place and for one rule are
equal, since a rule says the same of all it finds; so a sorted list of findings depends on the findings alone
(`Finding.sort_eq_of_perm`), and with it the result of files in any order (`Scan.run_rearranged`), scanned at once or
in parts whose results are put together.
-/
import CallLint.Proofs.Correspondence.Actions
import CallLint.Proofs.Scans.Accounts

namespace CallLint

/-! ## Sorted lists -/

theorem pairwise_mergeSort_cmp {α : Type} {cmp : α → α → Ordering} [Std.TransCmp cmp] (l : List α) :
    (l.mergeSort fun a b => (cmp a b).isLE).Pairwise fun a b => (cmp a b).isLE = true := by
  have trans (a b c : α) : (cmp a b).isLE = true → (cmp b c).isLE = true → (cmp a c).isLE = true :=
    Std.TransCmp.isLE_trans
  have swap (a b : α) : cmp a b = (cmp b a).swap := Std.OrientedCmp.eq_swap
  refine List.pairwise_mergeSort trans (fun a b => ?_) l
  rw [swap a b]
  cases cmp b a <;> rfl

/-- sorting forgets the order of a list in which no two different items are equal to the comparison -/
theorem mergeSort_eq_of_perm {α : Type} {cmp : α → α → Ordering} [Std.TransCmp cmp] {l l' : List α} (h : l.Perm l')
    (hl : ∀ a ∈ l, ∀ b ∈ l, cmp a b = .eq → a = b) :
    (l.mergeSort fun a b => (cmp a b).isLE) = l'.mergeSort fun a b => (cmp a b).isLE := by
  have perm (l : List α) := List.mergeSort_perm l fun a b => (cmp a b).isLE
  refine List.Perm.eq_of_pairwise ?_ (pairwise_mergeSort_cmp l) (pairwise_mergeSort_cmp l')
    ((perm l).trans (h.trans (perm l').symm))
  intro a b ha hb hab hba
  refine hl a ((perm l).mem_iff.1 ha) b (h.mem_iff.2 ((perm l').mem_iff.1 hb)) ?_
  exact Std.OrientedCmp.isLE_antisymm hab hba

theorem RuleKind.key_injective : Function.Injective RuleKind.key := by
  intro k k' h
  cases k <;> cases k' <;> first | rfl | exact absurd h (by decide)

namespace Finding

/-- the finding says what its rule says -/
def OfRule (f : Finding) : Prop :=
  ∃ k : RuleKind, f.rule = k.key ∧ f.message = k.message ∧ f.severity = k.severity

variable {f g : Finding} {fs gs : List Finding}

/-- findings of one rule at one place are equal -/
theorem OfRule.eq_of_compare (hf : f.OfRule) (hg : g.OfRule) (h : f.compare g = .eq) : f = g := by
  obtain ⟨k, hrule, hmessage, hseverity⟩ := hf
  obtain ⟨k', hrule', hmessage', hseverity'⟩ := hg
  obtain ⟨hfile, hline, hcolumn, hkey⟩ : f.file = g.file ∧ f.line = g.line ∧ f.column = g.column ∧ f.rule = g.rule := by
    simpa [compare, compareLex, compareOn, Ordering.then_eq_eq] using h
  have kinds : k = k' := RuleKind.key_injective (by rw [← hrule, ← hrule', hkey])
  subst kinds
  cases f
  cases g
  simp_all

/-- **Sorted findings** depend on the findings alone, and not on their order. -/
theorem sort_eq_of_perm (h : fs.Perm gs) (hfs : ∀ f ∈ fs, f.OfRule) : sort fs = sort gs :=
  mergeSort_eq_of_perm h fun f hf g hg => (hfs f hf).eq_of_compare (hfs g hg)

end Finding

/-! ## Results whose parts are rearranged -/

namespace ScanResult

/-- results that say the same in any order -/
structure Permuted (r r' : ScanResult) : Prop where
  findings : r.findings.Perm r'.findings
  suppressed : r.suppressed.Perm r'.suppressed
  scanned : r.scanned = r'.scanned
  failed : r.failed.Perm r'.failed

/-- results that are listed alike; the order of suppressed findings does not count -/
structure SameReport (r r' : ScanResult) : Prop where
  findings : r.findings = r'.findings
  suppressed : r.suppressed.Perm r'.suppressed
  scanned : r.scanned = r'.scanned
  failed : r.failed = r'.failed

/-- all findings say what their rules say -/
def OfRules (r : ScanResult) : Prop :=
  ∀ f ∈ r.findings, f.OfRule

variable {r r' r'' : ScanResult} {rs rs' : List ScanResult}

theorem Permuted.refl (r : ScanResult) : r.Permuted r :=
  ⟨.refl _, .refl _, rfl, .refl _⟩

theorem Permuted.symm (h : r.Permuted r') : r'.Permuted r :=
  ⟨h.findings.symm, h.suppressed.symm, h.scanned.symm, h.failed.symm⟩

theorem Permuted.trans (h : r.Permuted r') (k : r'.Permuted r'') : r.Permuted r'' :=
  ⟨h.findings.trans k.findings, h.suppressed.trans k.suppressed, h.scanned.trans k.scanned, h.failed.trans k.failed⟩

theorem Permuted.append {t t' : ScanResult} (h : r.Permuted r') (k : t.Permuted t') : (r.append t).Permuted (r'.append t') :=
  ⟨h.findings.append k.findings, h.suppressed.append k.suppressed, congrArg₂ (· + ·) h.scanned k.scanned,
    h.failed.append k.failed⟩

theorem SameReport.symm (h : r.SameReport r') : r'.SameReport r :=
  ⟨h.findings.symm, h.suppressed.symm, h.scanned.symm, h.failed.symm⟩

theorem SameReport.trans (h : r.SameReport r') (k : r'.SameReport r'') : r.SameReport r'' :=
  ⟨h.findings.trans k.findings, h.suppressed.trans k.suppressed, h.scanned.trans k.scanned, h.failed.trans k.failed⟩

/-- results put together in any order say the same -/
theorem concat_permuted (h : rs.Perm rs') : (concat rs).Permuted (concat rs') :=
  ⟨h.flatMap_right _, h.flatMap_right _, (h.map _).sum_eq, h.flatMap_right _⟩

theorem sort_permuted (r : ScanResult) : r.sort.Permuted r :=
  ⟨List.mergeSort_perm _ _, .refl _, rfl, List.mergeSort_perm _ _⟩

/-- sorted parts put together say what all their parts say -/
theorem concat_sorted (rss : List (List ScanResult)) :
    (concat (rss.map fun rs => (concat rs).sort)).Permuted (concat rss.flatten) := by
  induction rss with
  | nil => exact .refl _
  | cons rs rss ih =>
    have parts : concat (rs ++ rss.flatten) = (concat rs).append (concat rss.flatten) := by
      simp [concat, append]
    rw [List.map_cons, ← append_concat, List.flatten_cons, parts]
    exact (sort_permuted _).append ih

theorem Permuted.sort (h : r.Permuted r') (hr : r.OfRules) : r.sort.SameReport r'.sort :=
  ⟨Finding.sort_eq_of_perm h.findings hr, h.suppressed, h.scanned,
    mergeSort_eq_of_perm h.failed fun _ _ _ _ => Std.LawfulEqCmp.eq_of_compare⟩

theorem OfRules.concat (h : ∀ r ∈ rs, r.OfRules) : (concat rs).OfRules := by
  intro f hf
  obtain ⟨r, hr, hf⟩ := List.mem_flatMap.1 hf
  exact h r hr f hf

end ScanResult

/-! ## Actions in another order -/

section Actions

variable {α β : Type} {f : α → Except Fault β} {l l' : List α}

/-- actions in another order give the same results in another order -/
theorem mapM_perm (h : l.Perm l') : BothFaultOr List.Perm (l.mapM f) (l'.mapM f) := by
  induction h with
  | nil => exact List.Perm.nil
  | @cons a l l' _ ih =>
    rw [List.mapM_cons, List.mapM_cons]
    cases f a with
    | error fault => trivial
    | ok b => exact ih.bind fun bs bs' hbs => hbs.cons b
  | swap a b l =>
    simp only [List.mapM_cons]
    cases f a <;> cases f b <;> cases l.mapM f <;> first | trivial | exact List.Perm.swap _ _ _
  | trans _ _ ih ih' => exact ih.comp ih' fun bs bs' bs'' h h' => h.trans h'

/-- related actions give related results, item by item -/
theorem mapM_forall₂ {γ : Type} {f' : α → Except Fault γ} {P : β → γ → Prop}
    (h : ∀ a ∈ l, BothFaultOr P (f a) (f' a)) : BothFaultOr (List.Forall₂ P) (l.mapM f) (l.mapM f') := by
  induction l with
  | nil => exact List.Forall₂.nil
  | cons a l ih =>
    rw [List.mapM_cons, List.mapM_cons]
    refine (h a List.mem_cons_self).bind fun b c hbc => ?_
    exact (ih fun a ha => h a (List.mem_cons_of_mem _ ha)).bind fun bs cs hbcs => .cons hbc hbcs

/-- actions on all parts of a list are actions on the list -/
theorem mapM_flatten (f : α → Except Fault β) (ls : List (List α)) :
    (ls.mapM (List.mapM f)).map List.flatten = ls.flatten.mapM f := by
  induction ls with
  | nil => rfl
  | cons l ls ih =>
    rw [List.mapM_cons, List.flatten_cons, List.mapM_append, ← ih]
    cases l.mapM f with
    | error fault => rfl
    | ok bs => cases ls.mapM (List.mapM f) <;> rfl

end Actions

namespace Scan

theorem ofRule_of_mem_findings {rules : List Rule} {u : CompilationUnit} {f : Finding} (h : f ∈ findings rules u) : f.OfRule := by
  obtain ⟨r, _, hf⟩ := List.mem_flatMap.1 h
  obtain ⟨span, _, rfl⟩ := List.mem_map.1 hf
  exact ⟨r.kind, rfl, rfl, rfl⟩

theorem pathResult_ofRules (rules : List Rule) (path : List Char) (outcome : Except ScanError Analyzed) :
    (pathResult rules path outcome).OfRules := by
  cases outcome with
  | error e =>
    intro f hf
    cases hf
  | ok a =>
    intro f hf
    have accounts := Suppression.split_accounts a.suppressions (findings rules a.unit)
    exact ofRule_of_mem_findings (accounts.all.subset (List.mem_append_left _ hf))

section Scans

variable [Recovery] {w : Workspace} {rules : List Rule} {base path : List Char} {paths : List (List Char)}

theorem fileResults_ofRules {rs : List ScanResult} (h : paths.mapM (fileResult w rules base) = .ok rs) :
    (ScanResult.concat rs).OfRules := by
  refine ScanResult.OfRules.concat fun r hr => ?_
  obtain ⟨path, _, hpath⟩ := forall₂_mem_right (mapM_eq_ok.1 h) hr
  rw [fileResult] at hpath
  cases hanalyze : analyze w base path with
  | error fault => simp [hanalyze, Except.map] at hpath
  | ok outcome =>
    rw [hanalyze] at hpath
    cases hpath
    exact pathResult_ofRules rules path outcome

/-- what says the same as the files of a scan is listed as the scan is -/
theorem report_permuted {y : Except Fault ScanResult}
    (h : BothFaultOr ScanResult.Permuted ((paths.mapM (fileResult w rules base)).map ScanResult.concat) y) :
    BothFaultOr ScanResult.SameReport ((run w rules base paths).map (·.result)) (y.map ScanResult.sort) := by
  rw [run_result]
  cases hfiles : paths.mapM (fileResult w rules base) with
  | error fault =>
    rw [hfiles] at h
    cases y with
    | error fault' => trivial
    | ok r => exact h
  | ok rs =>
    rw [hfiles] at h
    cases y with
    | error fault' => exact h
    | ok r => exact ScanResult.Permuted.sort h (fileResults_ofRules hfiles)

theorem files_perm {paths' : List (List Char)} (h : paths.Perm paths') :
    BothFaultOr ScanResult.Permuted ((paths.mapM (fileResult w rules base)).map ScanResult.concat)
      ((paths'.mapM (fileResult w rules base)).map ScanResult.concat) := by
  have results : BothFaultOr List.Perm (paths.mapM (fileResult w rules base)) (paths'.mapM (fileResult w rules base)) :=
    mapM_perm h
  exact results.map fun rs rs' hrs => ScanResult.concat_permuted hrs

/-- the results of parts of the files, put together and sorted -/
def runParts (w : Workspace) (rules : List Rule) (base : List Char) (parts : List (List (List Char))) :
    Except Fault ScanResult := do
  let results ← parts.mapM fun part => (run w rules base part).map (·.result)
  return (results.foldl ScanResult.append .empty).sort

theorem runParts_eq (w : Workspace) (rules : List Rule) (base : List Char) (parts : List (List (List Char))) :
    runParts w rules base parts =
      (((parts.mapM (List.mapM (fileResult w rules base))).map
        (List.map fun rs => (ScanResult.concat rs).sort)).map ScanResult.concat).map ScanResult.sort := by
  have results : parts.mapM (fun part => (run w rules base part).map (·.result)) =
      (parts.mapM (List.mapM (fileResult w rules base))).map (List.map fun rs => (ScanResult.concat rs).sort) :=
    (mapM_map fun part _ => (run_result w rules base part).symm).symm
  rw [runParts, results]
  cases parts.mapM (List.mapM (fileResult w rules base)) with
  | error fault => rfl
  | ok rss =>
    have all := ScanResult.foldl_append .empty (rss.map fun rs => (ScanResult.concat rs).sort)
    rw [ScanResult.empty_append] at all
    exact congrArg (fun r : ScanResult => Except.ok r.sort) all

/-- parts whose results are put together say what all files say -/
theorem parts_flatten (parts : List (List (List Char))) :
    BothFaultOr ScanResult.Permuted ((parts.flatten.mapM (fileResult w rules base)).map ScanResult.concat)
      (((parts.mapM (List.mapM (fileResult w rules base))).map
        (List.map fun rs => (ScanResult.concat rs).sort)).map ScanResult.concat) := by
  rw [← mapM_flatten]
  cases parts.mapM (List.mapM (fileResult w rules base)) with
  | error fault => trivial
  | ok rss => exact (ScanResult.concat_sorted rss).symm

/-- **The order of the files does not show.** Files in another order, or in parts that are scanned one by one and put
together, give the same report. -/
theorem run_rearranged (w : Workspace) (rules : List Rule) (base : List Char) (paths : List (List Char)) :
    (∀ paths', paths.Perm paths' →
      BothFaultOr ScanResult.SameReport ((run w rules base paths).map (·.result)) ((run w rules base paths').map (·.result))) ∧
    ∀ parts : List (List (List Char)), paths.Perm parts.flatten →
      BothFaultOr ScanResult.SameReport ((run w rules base paths).map (·.result)) (runParts w rules base parts) := by
  constructor
  · intro paths' h
    have files : BothFaultOr ScanResult.Permuted ((paths.mapM (fileResult w rules base)).map ScanResult.concat)
        ((paths'.mapM (fileResult w rules base)).map ScanResult.concat) := files_perm h
    have listed := report_permuted files
    rw [run_result w rules base paths']
    cases hfiles : paths'.mapM (fileResult w rules base) <;> rw [hfiles] at listed <;> exact listed
  · intro parts h
    rw [runParts_eq]
    refine report_permuted (BothFaultOr.comp (files_perm h) (parts_flatten parts) ?_)
    exact fun r r' r'' hr hr' => hr.trans hr'

end Scans

/-- two files with a finding each, and a third path with no file -/
def loadingWorkspace : Workspace :=
  ⟨.folder [("A.java", .file "class A\x7bObject o=Class.forName(n);\x7d".toUTF8.toList),
    ("B.java", .file "class B\x7bObject o=Class.forName(n);\x7d".toUTF8.toList)], []⟩

def loadingPaths : List (List Char) :=
  ["C.java".toList, "B.java".toList, "A.java".toList]

/-- the findings and the failed path are listed alike, whether the files come in reverse order or in two parts -/
theorem loadingPaths_rearranged :
    loadingPaths.Perm loadingPaths.reverse ∧
      loadingPaths.Perm [["A.java".toList], ["C.java".toList, "B.java".toList]].flatten ∧
      ((run loadingWorkspace [.dynamicCode] [] loadingPaths).toOption.map (·.result.scanned)) = some 2 ∧
      loadingPaths.map (fun path =>
        (fileResult loadingWorkspace [.dynamicCode] [] path).toOption.map (·.findings.length)) = [some 0, some 1, some 1] ∧
      BothFaultOr ScanResult.SameReport ((run loadingWorkspace [.dynamicCode] [] loadingPaths).map (·.result))
        ((run loadingWorkspace [.dynamicCode] [] loadingPaths.reverse).map (·.result)) ∧
      BothFaultOr ScanResult.SameReport ((run loadingWorkspace [.dynamicCode] [] loadingPaths).map (·.result))
        (runParts loadingWorkspace [.dynamicCode] [] [["A.java".toList], ["C.java".toList, "B.java".toList]]) := by
  have reversed : loadingPaths.Perm loadingPaths.reverse := (List.reverse_perm _).symm
  have parted : loadingPaths.Perm [["A.java".toList], ["C.java".toList, "B.java".toList]].flatten := by decide
  obtain ⟨orders, parts⟩ := run_rearranged loadingWorkspace [.dynamicCode] [] loadingPaths
  exact ⟨reversed, parted, by decide +kernel, by decide +kernel, orders _ reversed, parts _ parted⟩

end Scan

end CallLint
