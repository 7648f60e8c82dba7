/-
The paths by which files go in findings. A file below the base goes by its path from there, and any other one by its own.
Seen from the base again, this path has the components of the path to the file (`Scan.components_reported`), so files whose
paths differ in their components never go by one name. Findings and suppressions carry the name of their file, and
`Scan.run_traceable` says what follows for a scan: findings lead back to their files, and no suppression crosses files.
-/
import CallLint.Proofs.Paths
import CallLint.Proofs.Positions.Units

namespace CallLint

/-! ## Suppressions and their files -/

namespace Suppression

theorem file_of_mem_ofText {file content : String} {s : Suppression} (h : s ∈ ofText file content) : s.file = file := by
  obtain ⟨k, line, -, hread⟩ := exists_line h
  exact (ofLine?_placed hread).1

/-- a suppression covers findings of its own file only -/
theorem file_of_covers {s : Suppression} {f : Finding} (h : s.covers f = true) : f.file = s.file := by
  simp only [covers, Bool.and_eq_true, beq_iff_eq] at h
  exact h.1.1

end Suppression

namespace Scan

/-! ## Reported paths -/

/-- the path by which the file at a path goes -/
def reportedPath (base path : List Char) : List Char :=
  relativePath base (absolutePath base path)

/-- **A reported path leads back:** seen from the base it has the components of the path to the file. -/
theorem components_reported (base path : List Char) :
    Path.components (absolutePath base (reportedPath base path)) = Path.components (absolutePath base path) := by
  rw [reportedPath, relativePath]
  cases hstrip : Path.strip? base (absolutePath base path) with
  | some rest => exact Path.components_join_strip? hstrip
  | none =>
    -- only an absolute path can lie outside of the base, and joining adds nothing to it
    have hpath : Path.isAbsolute path = true := by
      by_contra hrel
      have below : Path.components base <+: Path.components (absolutePath base path) :=
        Path.components_prefix_join base (Bool.not_eq_true _ ▸ hrel)
      have stripped := Path.strip?_isSome_iff.2 below
      rw [hstrip] at stripped
      cases stripped
    have absolute : absolutePath base path = path := Path.join_of_isAbsolute base hpath
    rw [Option.getD_none, absolute, absolute]

/-- a base with a point at its end, and a path that goes up -/
example : reportedPath "p/.".toList "./x//../T.java".toList = "x//../T.java".toList := by decide

theorem components_of_reported {base path other : List Char} (h : reportedPath base path = reportedPath base other) :
    Path.components (absolutePath base path) = Path.components (absolutePath base other) := by
  rw [← components_reported, h, components_reported]

section Scans

variable [Recovery] {w : Workspace} {rules : List Rule} {base path : List Char} {paths : List (List Char)} {f : Finding}
  {s : Suppression}

theorem analyze_path {a : Analyzed} (h : analyze w base path = .ok (.ok a)) : a.path = reportedPath base path := by
  unfold analyze at h
  dsimp only at h
  cases hread : w.read (absolutePath base path) with
  | error e => simp [hread] at h
  | ok bytes =>
    simp only [hread] at h
    cases hunit : analyzeSource (relativePath base (absolutePath base path)) (Source.ofBytes bytes) with
    | error fault => simp [hunit, Except.map] at h
    | ok outcome =>
      rw [hunit] at h
      cases outcome with
      | error e => simp [Except.map] at h
      | ok u =>
        cases h
        rfl

/-! ## Findings and suppressions of the file at a path -/

/-- the rules find this in the file at a path -/
def FoundAt (w : Workspace) (rules : List Rule) (base path : List Char) (f : Finding) : Prop :=
  ∃ a, analyze w base path = .ok (.ok a) ∧ f ∈ findings rules a.unit

/-- the file at a path states this suppression -/
def StatedAt (w : Workspace) (base path : List Char) (s : Suppression) : Prop :=
  ∃ a, analyze w base path = .ok (.ok a) ∧ s ∈ a.suppressions

theorem FoundAt.file (h : FoundAt w rules base path f) : f.file = String.ofList (reportedPath base path) := by
  obtain ⟨a, ha, hf⟩ := h
  rw [file_of_mem_findings hf, analyze_unit_path ha, Analyzed.name, analyze_path ha]

theorem StatedAt.file (h : StatedAt w base path s) : s.file = String.ofList (reportedPath base path) := by
  obtain ⟨a, ha, hs⟩ := h
  rw [Suppression.file_of_mem_ofText hs, Analyzed.name, analyze_path ha]

theorem FoundAt.leadsBack (h : FoundAt w rules base path f) :
    Path.components (absolutePath base f.file.toList) = Path.components (absolutePath base path) := by
  rw [h.file, String.toList_ofList, components_reported]

/-- an analyzed file is that at one of the paths -/
theorem exists_foundAt {a : Analyzed} (ha : a ∈ analyzedFiles w base paths) :
    ∃ path ∈ paths, (∀ f ∈ findings rules a.unit, FoundAt w rules base path f) ∧
      ∀ s ∈ a.suppressions, StatedAt w base path s := by
  obtain ⟨path, hpath, hanalyze⟩ := mem_analyzedFiles ha
  exact ⟨path, hpath, fun f hf => ⟨a, hanalyze, hf⟩, fun s hs => ⟨a, hanalyze, hs⟩⟩

/-- **Findings can be traced to their files.** Seen from the base, a reported path has the components of the path to the
file. So two files whose paths differ in their components share no name, and neither suppresses what is found in the other.
Each finding of a scan was found in the file at one of the paths, to which its name leads back, and a suppressed one is
paired with a suppression that this file states. -/
theorem run_traceable (w : Workspace) (rules : List Rule) (base : List Char) (paths : List (List Char)) :
    (∀ path, Path.components (absolutePath base (relativePath base (absolutePath base path))) =
      Path.components (absolutePath base path)) ∧
    (∀ path other, Path.components (absolutePath base path) ≠ Path.components (absolutePath base other) →
      relativePath base (absolutePath base path) ≠ relativePath base (absolutePath base other) ∧
      ∀ f, FoundAt w rules base path f →
        (∀ g, FoundAt w rules base other g → f.file ≠ g.file) ∧ ∀ s, StatedAt w base other s → s.covers f = false) ∧
    ∀ logged, run w rules base paths = .ok logged →
      (∀ f ∈ logged.result.findings, ∃ path ∈ paths, FoundAt w rules base path f ∧
        Path.components (absolutePath base f.file.toList) = Path.components (absolutePath base path)) ∧
      ∀ x ∈ logged.result.suppressed, ∃ path ∈ paths, FoundAt w rules base path x.finding ∧
        StatedAt w base path x.suppression ∧
        Path.components (absolutePath base x.finding.file.toList) = Path.components (absolutePath base path) := by
  refine ⟨components_reported base, fun path other apart => ?_, fun logged hrun => ?_⟩
  · have names : reportedPath base path ≠ reportedPath base other := fun h => apart (components_of_reported h)
    refine ⟨names, fun f hf => ⟨fun g hg hfile => ?_, fun s hs => ?_⟩⟩
    · rw [hf.file, hg.file] at hfile
      exact names (String.ofList_injective hfile)
    · by_contra hcovers
      have hfile := Suppression.file_of_covers (Bool.not_eq_false _ ▸ hcovers)
      rw [hf.file, hs.file] at hfile
      exact names (String.ofList_injective hfile)
  · obtain ⟨hfindings, hsuppressed⟩ := run_files hrun
    constructor
    · intro f hf
      obtain ⟨a, ha, hactive⟩ := List.mem_flatMap.1 (hfindings.subset hf)
      have known : f ∈ findings rules a.unit :=
        (Suppression.split_accounts _ _).all.subset (List.mem_append_left _ hactive)
      obtain ⟨path, hpath, found, -⟩ := exists_foundAt ha
      exact ⟨path, hpath, found f known, (found f known).leadsBack⟩
    · intro x hx
      rw [hsuppressed] at hx
      obtain ⟨a, ha, hx⟩ := List.mem_flatMap.1 hx
      have accounts := Suppression.split_accounts a.suppressions (findings rules a.unit)
      have known : x.finding ∈ findings rules a.unit :=
        accounts.all.subset (List.mem_append_right _ (List.mem_map_of_mem hx))
      obtain ⟨before, after, hstated, -, -⟩ := accounts.first x hx
      obtain ⟨path, hpath, found, stated⟩ := exists_foundAt ha
      exact ⟨path, hpath, found _ known, stated _ (hstated ▸ List.mem_append_right _ List.mem_cons_self),
        (found _ known).leadsBack⟩

end Scans

/-- two files of one name with a reflective call each; the one in the folder `p` is silenced -/
def twoFolders : Workspace :=
  ⟨.folder [("p", .folder [("T.java", .file (commentedLine "NOSONAR").toUTF8.toList)]),
    ("o", .folder [("T.java", .file (commentedLine "").toUTF8.toList)])], []⟩

/-- The file outside of the base goes by its own path, and the comment in the other one does not reach it. -/
theorem twoFolders_traceable :
    let base := "/p".toList
    let inside := "./T.java".toList
    let outside := "/o/T.java".toList
    let f := { commentedFinding with file := "/o/T.java" }
    Path.components (absolutePath base outside) ≠ Path.components (absolutePath base inside) ∧
      ∃ logged, run twoFolders [.dynamicCode] base [inside, outside] = .ok logged ∧
        f ∈ logged.result.findings ∧ FoundAt twoFolders [.dynamicCode] base outside f ∧
        ∃ x ∈ logged.result.suppressed, FoundAt twoFolders [.dynamicCode] base inside x.finding ∧
          StatedAt twoFolders base inside x.suppression ∧ f.file ≠ x.finding.file ∧ x.suppression.covers f = false := by
  intro base inside outside f
  have apart : Path.components (absolutePath base outside) ≠ Path.components (absolutePath base inside) := by decide
  have results : (run twoFolders [.dynamicCode] base [inside, outside]).toOption.map
      (fun logged => (logged.result.findings, logged.result.suppressed.map (·.finding))) =
        some ([f], [commentedFinding]) := by decide +kernel
  obtain ⟨-, separate, traced⟩ := run_traceable twoFolders [.dynamicCode] base [inside, outside]
  cases hrun : run twoFolders [.dynamicCode] base [inside, outside] with
  | error fault =>
    rw [hrun] at results
    cases results
  | ok logged =>
    rw [hrun] at results
    obtain ⟨hfindings, hsuppressed⟩ := Prod.mk.inj (Option.some.inj results)
    obtain ⟨active, suppressed⟩ := traced logged hrun
    have hf : f ∈ logged.result.findings := hfindings ▸ List.mem_singleton_self f
    obtain ⟨x, hx, hfinding⟩ := List.mem_map.1 (hsuppressed ▸ List.mem_singleton_self commentedFinding)
    obtain ⟨path, hpath, found, -⟩ := active f hf
    obtain ⟨other, hother, foundOther, stated, -⟩ := suppressed x hx
    -- the names of the findings tell at which of the two paths they were found
    obtain rfl : path = outside := by
      rcases List.mem_pair.1 hpath with rfl | rfl
      · exact absurd found.file (by decide)
      · rfl
    obtain rfl : other = inside := by
      rcases List.mem_pair.1 hother with rfl | rfl
      · rfl
      · rw [hfinding] at foundOther
        exact absurd foundOther.file (by decide)
    obtain ⟨-, disjoint⟩ := separate _ _ apart
    obtain ⟨names, uncovered⟩ := disjoint f found
    exact ⟨apart, logged, rfl, hf, found, x, hx, foundOther, stated, names _ foundOther, uncovered _ stated⟩

end Scan

end CallLint
