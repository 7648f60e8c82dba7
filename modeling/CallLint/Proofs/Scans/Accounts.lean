/-
What a scan says of its files. At each path there is an analyzed file or a reason why there is none (`Scan.analyze`),
and the result of a scan is put together from what each path gives, so no file changes what is said of another.

- `Suppression.split_accounts`: the findings of a file are divided without loss; what stays active is covered by no
  suppression of the file, and what does not is paired with the first one that covers it;
- `Scan.run_result`: the result of a scan is the sorted concatenation of the results of its paths;
- `Scan.run_accounts`: a scan accounts for every path and every finding once, unless a file holds a string without text.

Files with syntax errors are analyzed as others are: what is found in the trees that are recovered of them counts.
-/
import CallLint.Scan.Batch
import CallLint.Proofs.Laws.Files

namespace CallLint

/-! ## Findings of one file -/

namespace Suppression

/-- the suppression covers the finding, and none of those before it does -/
def IsFirst (ss : List Suppression) (f : Finding) (s : Suppression) : Prop :=
  ∃ before after, ss = before ++ s :: after ∧ s.covers f = true ∧ ∀ t ∈ before, t.covers f = false

/-- findings of a file, divided by its suppressions -/
structure Accounts (ss : List Suppression) (found active : List Finding) (suppressed : List SuppressedFinding) : Prop where
  all : (active ++ suppressed.map (·.finding)).Perm found
  active : ∀ f ∈ active, ∀ s ∈ ss, s.covers f = false
  first : ∀ x ∈ suppressed, IsFirst ss x.finding x.suppression

theorem isFirst_of_find? {ss : List Suppression} {f : Finding} {s : Suppression} (h : ss.find? (·.covers f) = some s) :
    IsFirst ss f s := by
  obtain ⟨hs, before, after, hss, hbefore⟩ := List.find?_eq_some_iff_append.1 h
  exact ⟨before, after, hss, hs, by simpa using hbefore⟩

/-- **Suppressions divide findings without loss.** -/
theorem split_accounts (ss : List Suppression) (fs : List Finding) : Accounts ss fs (split ss fs).1 (split ss fs).2 := by
  induction fs with
  | nil => exact ⟨.nil, by simp [split], by simp [split]⟩
  | cons f fs ih =>
    rw [split]
    cases hfind : ss.find? (·.covers f) with
    | some s =>
      refine ⟨?_, ih.active, ?_⟩
      · exact List.perm_middle.trans (ih.all.cons f)
      · intro x hx
        rcases List.mem_cons.1 hx with rfl | hx
        · exact isFirst_of_find? hfind
        · exact ih.first x hx
    | none =>
      refine ⟨ih.all.cons f, ?_, ih.first⟩
      intro g hg
      rcases List.mem_cons.1 hg with rfl | hg
      · intro s hs
        simpa using List.find?_eq_none.1 hfind s hs
      · exact ih.active g hg

end Suppression

/-! ## Results put together -/

namespace ScanResult

/-- the results one after the other -/
def concat (rs : List ScanResult) : ScanResult :=
  ⟨rs.flatMap (·.findings), rs.flatMap (·.suppressed), (rs.map (·.scanned)).sum, rs.flatMap (·.failed)⟩

theorem append_concat (r : ScanResult) (rs : List ScanResult) : r.append (concat rs) = concat (r :: rs) := rfl

theorem append_assoc (a b c : ScanResult) : (a.append b).append c = a.append (b.append c) := by
  simp [append, Nat.add_assoc]

theorem foldl_append (r : ScanResult) (rs : List ScanResult) : rs.foldl append r = r.append (concat rs) := by
  induction rs generalizing r with
  | nil => simp [append, concat]
  | cons a rs ih => rw [List.foldl_cons, ih, append_assoc, append_concat]

theorem empty_append (r : ScanResult) : empty.append r = r := by
  simp [append, empty]

end ScanResult

/-! ## Lists of actions -/

section Actions

variable {α β : Type} {f : α → Except Fault β} {l : List α}

theorem mapM_eq_ok {bs : List β} : l.mapM f = .ok bs ↔ List.Forall₂ (fun a b => f a = .ok b) l bs := by
  induction l generalizing bs with
  | nil =>
    rw [List.mapM_nil, List.forall₂_nil_left_iff]
    exact ⟨fun h => (Except.ok.inj h).symm, fun h => h ▸ rfl⟩
  | cons a l ih =>
    rw [List.mapM_cons, List.forall₂_cons_left_iff]
    cases ha : f a with
    | error fault => exact ⟨fun h => (nomatch h), fun ⟨_, _, hb, _⟩ => (nomatch hb)⟩
    | ok b =>
      cases hl : l.mapM f with
      | error fault =>
        refine ⟨fun h => (nomatch h), fun ⟨_, cs, _, hcs, _⟩ => ?_⟩
        rw [ih.2 hcs] at hl
        exact nomatch hl
      | ok cs =>
        constructor
        · intro h
          exact ⟨b, cs, rfl, ih.1 hl, (Except.ok.inj h).symm⟩
        · rintro ⟨b', cs', hb, hcs, rfl⟩
          rw [ih.2 hcs] at hl
          cases hb
          cases hl
          rfl

theorem mapM_eq_error {fault : Fault} (h : l.mapM f = .error fault) : ∃ a ∈ l, f a = .error fault := by
  induction l with
  | nil => exact nomatch h
  | cons a l ih =>
    rw [List.mapM_cons] at h
    cases ha : f a with
    | error fault' =>
      rw [ha] at h
      cases h
      exact ⟨a, List.mem_cons_self, ha⟩
    | ok b =>
      rw [ha] at h
      cases hl : l.mapM f with
      | error fault' =>
        rw [hl] at h
        cases h
        obtain ⟨c, hc, hfc⟩ := ih hl
        exact ⟨c, List.mem_cons_of_mem _ hc, hfc⟩
      | ok bs =>
        rw [hl] at h
        exact nomatch h

/-- what is made of each result may be made at once -/
theorem mapM_map {γ : Type} {g : β → γ} {f' : α → Except Fault γ} (h : ∀ a ∈ l, (f a).map g = f' a) :
    (l.mapM f).map (List.map g) = l.mapM f' := by
  induction l with
  | nil => rfl
  | cons a l ih =>
    have rest := ih fun a ha => h a (List.mem_cons_of_mem _ ha)
    rw [List.mapM_cons, List.mapM_cons, ← rest, ← h a List.mem_cons_self]
    cases f a with
    | error fault => rfl
    | ok b => cases l.mapM f <;> rfl

end Actions

namespace Scan

/-! ## The file at a path -/

/-- a file that was read and analyzed -/
structure Analyzed where
  /-- the path by which the file goes -/
  path : List Char
  source : Source
  unit : CompilationUnit

namespace Analyzed

def name (a : Analyzed) : String :=
  String.ofList a.path

/-- the suppressions of the file, in the order of its lines -/
def suppressions (a : Analyzed) : List Suppression :=
  Suppression.ofText a.name a.source.lossyText

end Analyzed

/-- what a path adds to the result -/
def pathResult (rules : List Rule) (path : List Char) : Except ScanError Analyzed → ScanResult
  | .ok a => (unitResult rules a.path a.source a.unit).result
  | .error e => (failure path e).result

/-- a finding says in which file it lies -/
theorem file_of_mem_findings {rules : List Rule} {u : CompilationUnit} {f : Finding} (h : f ∈ findings rules u) :
    f.file = u.path := by
  obtain ⟨r, _, hf⟩ := List.mem_flatMap.1 h
  obtain ⟨span, _, rfl⟩ := List.mem_map.1 hf
  rfl

theorem foldl_append_result (ls : List Logged) (l : Logged) :
    (ls.foldl Logged.append l).result = (ls.map (·.result)).foldl ScanResult.append l.result := by
  induction ls generalizing l with
  | nil => rfl
  | cons a ls ih => exact ih (l.append a)

section Scans

variable [Recovery]

/-- the analyzed file at a path, or why there is none -/
def analyze (w : Workspace) (base path : List Char) : Except Fault (Except ScanError Analyzed) :=
  let absolute := absolutePath base path
  let relative := relativePath base absolute
  match w.read absolute with
  | .error e => .ok (.error (.unreadable absolute e))
  | .ok bytes =>
    let source := Source.ofBytes bytes
    (analyzeSource relative source).map (·.map fun u => ⟨relative, source, u⟩)

/-- the files at some paths that can be analyzed -/
def analyzedFiles (w : Workspace) (base : List Char) (paths : List (List Char)) : List Analyzed :=
  paths.filterMap fun path =>
    match analyze w base path with
    | .ok (.ok a) => some a
    | _ => none

/-- the paths at which there is no file that can be read and analyzed -/
def failedPaths (w : Workspace) (base : List Char) (paths : List (List Char)) : List (List Char) :=
  paths.filter fun path =>
    match analyze w base path with
    | .ok (.error _) => true
    | _ => false

variable {w : Workspace} {rules : List Rule} {base path : List Char} {paths : List (List Char)}

/-- the result of a path -/
def fileResult (w : Workspace) (rules : List Rule) (base path : List Char) : Except Fault ScanResult :=
  (analyze w base path).map (pathResult rules path)

theorem scanFile_result (w : Workspace) (rules : List Rule) (base path : List Char) :
    (scanFile w rules base path).map (·.result) = fileResult w rules base path := by
  unfold fileResult scanFile checkFile analyze
  dsimp only
  cases w.read (absolutePath base path) with
  | error e => rfl
  | ok bytes =>
    dsimp only
    cases analyzeSource (relativePath base (absolutePath base path)) (Source.ofBytes bytes) with
    | error fault => rfl
    | ok outcome => cases outcome <;> rfl

/-- **The result of a scan** is the sorted concatenation of the results of its paths. -/
theorem run_result (w : Workspace) (rules : List Rule) (base : List Char) (paths : List (List Char)) :
    (run w rules base paths).map (·.result) =
      (paths.mapM (fileResult w rules base)).map fun rs => (ScanResult.concat rs).sort := by
  have parts : (paths.mapM (scanFile w rules base)).map (List.map (·.result)) = paths.mapM (fileResult w rules base) :=
    mapM_map fun path _ => scanFile_result w rules base path
  rw [← parts, run]
  cases paths.mapM (scanFile w rules base) with
  | error fault => rfl
  | ok ls =>
    have all : (ls.foldl Logged.append ⟨.empty, []⟩).result = ScanResult.concat (ls.map (·.result)) := by
      rw [foldl_append_result, ScanResult.foldl_append, ScanResult.empty_append]
    exact congrArg (fun r : ScanResult => Except.ok r.sort) all

/-- a scan that gives a result gives one for each of its paths -/
theorem run_eq_ok {logged : Logged} (h : run w rules base paths = .ok logged) :
    ∃ rs, paths.mapM (fileResult w rules base) = .ok rs ∧ logged.result = (ScanResult.concat rs).sort := by
  have result := run_result w rules base paths
  rw [h] at result
  cases hfiles : paths.mapM (fileResult w rules base) with
  | error fault =>
    rw [hfiles] at result
    cases result
  | ok rs =>
    rw [hfiles] at result
    exact ⟨rs, rfl, Except.ok.inj result⟩

/-- a scan that stops does so at one of its paths -/
theorem run_eq_error {fault : Fault} (h : run w rules base paths = .error fault) :
    ∃ path ∈ paths, analyze w base path = .error fault := by
  have result := run_result w rules base paths
  rw [h] at result
  cases hfiles : paths.mapM (fileResult w rules base) with
  | ok rs =>
    rw [hfiles] at result
    cases result
  | error fault' =>
    rw [hfiles] at result
    obtain rfl := Except.error.inj result
    obtain ⟨path, hpath, stops⟩ := mapM_eq_error hfiles
    refine ⟨path, hpath, ?_⟩
    rw [fileResult] at stops
    cases hanalyze : analyze w base path with
    | ok outcome =>
      rw [hanalyze] at stops
      cases stops
    | error fault' => rfl

/-! ## Files and their names -/

/-- What there is at a path comes of the unit of its bytes, unless there are no bytes or their language is not known. -/
theorem analyze_cases (w : Workspace) (base path : List Char) :
    (∃ e, analyze w base path = .ok (.error e)) ∨
      ∃ bytes relative, w.read (absolutePath base path) = .ok bytes ∧
        analyze w base path = ((Source.ofBytes bytes).unit (String.ofList relative)).map fun u =>
          .ok ⟨relative, Source.ofBytes bytes, u⟩ := by
  unfold analyze
  dsimp only
  cases w.read (absolutePath base path) with
  | error e => exact .inl ⟨_, rfl⟩
  | ok bytes =>
    dsimp only
    rw [analyzeSource]
    split_ifs
    · refine .inr ⟨bytes, relativePath base (absolutePath base path), rfl, ?_⟩
      cases (Source.ofBytes bytes).unit (String.ofList (relativePath base (absolutePath base path))) <;> rfl
    · exact .inl ⟨_, rfl⟩

/-- the unit of an analyzed file goes by the name of the file -/
theorem analyze_unit_path {a : Analyzed} (h : analyze w base path = .ok (.ok a)) : a.unit.path = a.name := by
  rcases analyze_cases w base path with ⟨e, he⟩ | ⟨bytes, relative, -, hunit⟩
  · rw [he] at h
    cases h
  · rw [hunit] at h
    have named := (Source.ofBytes bytes).unit_path (String.ofList relative)
    cases hu : (Source.ofBytes bytes).unit (String.ofList relative) with
    | error fault => simp [hu, Except.map] at h
    | ok u =>
      rw [hu] at h named
      cases h
      exact named

/-- a file that stops a scan holds a string without text -/
theorem faulty_of_analyze {fault : Fault} (h : analyze w base path = .error fault) :
    ∃ bytes, w.read (absolutePath base path) = .ok bytes ∧
      (Source.ofBytes bytes).root.Faulty (Source.ofBytes bytes) := by
  rcases analyze_cases w base path with ⟨e, he⟩ | ⟨bytes, relative, hread, hunit⟩
  · rw [he] at h
    cases h
  · rw [hunit] at h
    have faulty := (Source.ofBytes bytes).unit_faulty (String.ofList relative)
    cases hu : (Source.ofBytes bytes).unit (String.ofList relative) with
    | error fault' =>
      rw [hu] at faulty
      exact ⟨bytes, hread, faulty⟩
    | ok u =>
      rw [hu] at h
      cases h

/-! ## What a scan accounts for -/

/-- a result says of every path, and of every finding in the files at these paths, exactly once what becomes of it -/
structure Accounts (w : Workspace) (rules : List Rule) (base : List Char) (paths : List (List Char)) (r : ScanResult) :
    Prop where
  scanned : r.scanned = (analyzedFiles w base paths).length
  failed : r.failed.Perm ((failedPaths w base paths).map String.ofList)
  total : r.scanned + r.failed.length = paths.length
  found : (r.findings ++ r.suppressed.map (·.finding)).Perm
    ((analyzedFiles w base paths).flatMap fun a => findings rules a.unit)
  active : ∀ f ∈ r.findings, ∃ a ∈ analyzedFiles w base paths, f.file = a.name ∧ f ∈ findings rules a.unit ∧
    ∀ s ∈ a.suppressions, s.covers f = false
  suppressed : ∀ x ∈ r.suppressed, ∃ a ∈ analyzedFiles w base paths, x.finding.file = a.name ∧
    x.finding ∈ findings rules a.unit ∧ Suppression.IsFirst a.suppressions x.finding x.suppression

namespace Accounts

variable {r : ScanResult}

theorem nil : Accounts w rules base [] .empty :=
  ⟨rfl, .nil, rfl, .nil, by simp [ScanResult.empty], by simp [ScanResult.empty]⟩

theorem cons_analyzed (h : Accounts w rules base paths r) {a : Analyzed} (ha : analyze w base path = .ok (.ok a)) :
    Accounts w rules base (path :: paths) ((pathResult rules path (.ok a)).append r) := by
  have files : analyzedFiles w base (path :: paths) = a :: analyzedFiles w base paths := by
    simp [analyzedFiles, ha]
  have failures : failedPaths w base (path :: paths) = failedPaths w base paths := by
    simp [failedPaths, ha]
  obtain ⟨all, active, first⟩ := Suppression.split_accounts a.suppressions (findings rules a.unit)
  let found := Suppression.split a.suppressions (findings rules a.unit)
  have result : (pathResult rules path (.ok a)).append r =
      ⟨found.1 ++ r.findings, found.2 ++ r.suppressed, 1 + r.scanned, r.failed⟩ := rfl
  have named {f : Finding} (hf : f ∈ findings rules a.unit) : f.file = a.name :=
    (file_of_mem_findings hf).trans (analyze_unit_path ha)
  rw [result]
  constructor
  case scanned =>
    rw [files, List.length_cons, h.scanned]
    exact Nat.add_comm _ _
  case failed =>
    rw [failures]
    exact h.failed
  case total =>
    have total := h.total
    rw [List.length_cons]
    dsimp only
    omega
  case found =>
    rw [files, List.flatMap_cons, List.map_append]
    -- the active findings of the other files stand between the two parts of this file
    calc
      (found.1 ++ r.findings ++ (found.2.map (·.finding) ++ r.suppressed.map (·.finding))).Perm
          (found.1 ++ found.2.map (·.finding) ++ (r.findings ++ r.suppressed.map (·.finding))) := by
        rw [List.append_assoc, List.append_assoc, List.perm_append_left_iff, ← List.append_assoc, ← List.append_assoc]
        exact List.perm_append_comm.append_right _
      List.Perm _ _ := all.append h.found
  case active =>
    intro f hf
    rw [files]
    rcases List.mem_append.1 hf with hf | hf
    · have known := all.subset (List.mem_append_left _ hf)
      exact ⟨a, List.mem_cons_self, named known, known, active f hf⟩
    · obtain ⟨b, hb, rest⟩ := h.active f hf
      exact ⟨b, List.mem_cons_of_mem _ hb, rest⟩
  case suppressed =>
    intro x hx
    rw [files]
    rcases List.mem_append.1 hx with hx | hx
    · have known := all.subset (List.mem_append_right _ (List.mem_map_of_mem hx))
      exact ⟨a, List.mem_cons_self, named known, known, first x hx⟩
    · obtain ⟨b, hb, rest⟩ := h.suppressed x hx
      exact ⟨b, List.mem_cons_of_mem _ hb, rest⟩

theorem cons_failed (h : Accounts w rules base paths r) {e : ScanError} (he : analyze w base path = .ok (.error e)) :
    Accounts w rules base (path :: paths) ((pathResult rules path (.error e)).append r) := by
  have files : analyzedFiles w base (path :: paths) = analyzedFiles w base paths := by
    simp [analyzedFiles, he]
  have failures : failedPaths w base (path :: paths) = path :: failedPaths w base paths := by
    simp [failedPaths, he]
  have result : (pathResult rules path (.error e)).append r =
      ⟨r.findings, r.suppressed, 0 + r.scanned, String.ofList path :: r.failed⟩ := rfl
  rw [result, Nat.zero_add]
  constructor
  case scanned =>
    rw [files]
    exact h.scanned
  case failed =>
    rw [failures, List.map_cons]
    exact h.failed.cons _
  case total =>
    have total := h.total
    dsimp only
    rw [List.length_cons, List.length_cons]
    omega
  case found =>
    rw [files]
    exact h.found
  case active =>
    rw [files]
    exact h.active
  case suppressed =>
    rw [files]
    exact h.suppressed

theorem concat {rs : List ScanResult} (h : List.Forall₂ (fun path r => fileResult w rules base path = .ok r) paths rs) :
    Accounts w rules base paths (ScanResult.concat rs) := by
  induction h with
  | nil => exact nil
  | @cons path r paths rs hr _ ih =>
    rw [fileResult] at hr
    cases hpath : analyze w base path with
    | error fault => simp [hpath, Except.map] at hr
    | ok outcome =>
      rw [hpath] at hr
      cases hr
      rw [← ScanResult.append_concat]
      cases outcome with
      | ok a => exact ih.cons_analyzed hpath
      | error e => exact ih.cons_failed hpath

/-- listing order changes no account -/
theorem sort (h : Accounts w rules base paths r) : Accounts w rules base paths r.sort := by
  have findings : r.sort.findings.Perm r.findings := List.mergeSort_perm _ _
  have failed : r.sort.failed.Perm r.failed := List.mergeSort_perm _ _
  refine ⟨h.scanned, failed.trans h.failed, ?_, (findings.append_right _).trans h.found,
    fun f hf => h.active f (findings.subset hf), h.suppressed⟩
  rw [failed.length_eq]
  exact h.total

end Accounts

/-- **A scan accounts for everything once.** Each path is analyzed or failed, each finding of the rules is active or
suppressed, by the suppressions of its own file. Only a string without text in one of the files stops the scan. -/
theorem run_accounts (w : Workspace) (rules : List Rule) (base : List Char) (paths : List (List Char)) :
    match run w rules base paths with
    | .ok logged => Accounts w rules base paths logged.result
    | .error fault => ∃ path ∈ paths, analyze w base path = .error fault ∧
        ∃ bytes, w.read (absolutePath base path) = .ok bytes ∧
          (Source.ofBytes bytes).root.Faulty (Source.ofBytes bytes) := by
  cases hrun : run w rules base paths with
  | ok logged =>
    obtain ⟨rs, hfiles, sorted⟩ := run_eq_ok hrun
    dsimp only
    rw [sorted]
    exact (Accounts.concat (mapM_eq_ok.1 hfiles)).sort
  | error fault =>
    obtain ⟨path, hpath, stops⟩ := run_eq_error hrun
    exact ⟨path, hpath, stops, faulty_of_analyze stops⟩

end Scans

/-- a class with a brace too many, of which the tree of the text before that brace is recovered -/
example :
    let _ : Recovery := ⟨fun s => (Source.ofBytes s.bytes.toList.dropLast).root⟩
    let w : Workspace := ⟨.folder [("A.java", .file "class A\x7bObject o=Class.forName(n);\x7d\x7d".toUTF8.toList)], []⟩
    (run w [.dynamicCode] [] ["A.java".toList]).toOption.map (·.result.findings.length) = some 1 := by
  decide +kernel

/-- a file with a reflective call, and one with a text block whose shared indentation ends inside a character -/
def indentedWorkspace : Workspace :=
  ⟨.folder [("A.java", .file "class A\x7bObject o=Class.forName(n);\x7d".toUTF8.toList),
    ("T.java", .file "class T\x7bString s=\"\"\"\n a\n\u3000b\"\"\";\x7d".toUTF8.toList)], []⟩

/-- A string without text in one file leaves nothing of what a scan finds in the others. -/
theorem sharedIndent_stopsScan :
    ((run indentedWorkspace [.dynamicCode] [] ["A.java".toList]).toOption.map fun logged =>
        (logged.result.findings.length, logged.result.failed)) = some (1, []) ∧
      (run indentedWorkspace [.dynamicCode] [] ["A.java".toList, "T.java".toList]).isOk = false := by
  decide +kernel

end Scan

end CallLint
