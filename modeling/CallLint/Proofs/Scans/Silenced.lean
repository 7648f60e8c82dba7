/-
What comments silence. An `ignore` directive speaks of its own line when something but blanks stands before its comment,
and of the next line otherwise; the word NOSONAR after two slashes speaks of its line, unless a directive stands there.
- `Suppression.ofText_ignore`: what an `ignore` directive covers, wherever its comment stands on a line;
- `Suppression.blockBeforeCode_active`: a block comment before code counts as one that is alone;
- `Directive.silencerReason?_isSome`: the lines on which NOSONAR is found;
- `Scan.run_silenced`: no finding on such a line stays active in a scan, when no directive is read there;
- `Scan.directive_hides_silencer`: that condition is needed.
-/
import CallLint.Proofs.Directives
import CallLint.Proofs.Scans.Accounts

namespace CallLint

/-! ## Covered findings -/

namespace Suppression

/-- a finding that is covered does not stay active -/
theorem split_covered {ss : List Suppression} {found : List Finding} {s : Suppression} {f : Finding} (hs : s ∈ ss)
    (hf : f ∈ found) (hc : s.covers f = true) :
    f ∉ (split ss found).1 ∧ ∃ x ∈ (split ss found).2, x.finding = f := by
  have accounts := split_accounts ss found
  have inactive : f ∉ (split ss found).1 := by
    intro hactive
    rw [accounts.active f hactive s hs] at hc
    cases hc
  refine ⟨inactive, ?_⟩
  have listed := accounts.all.symm.subset hf
  exact List.mem_map.1 ((List.mem_append.1 listed).resolve_left inactive)

/-- what a line yields is a suppression of the file -/
theorem mem_ofText {file content : String} {i : Nat} {s : Suppression}
    (h : (lineYields file (Text.lines content.toList))[i]? = some (some s)) : s ∈ ofText file content := by
  rw [ofText_eq, List.reduceOption_mem_iff]
  exact List.mem_of_getElem? h

theorem lineYields_getElem? (file : String) {lines : List (List Char)} {i : Nat} {line : List Char}
    (h : lines[i]? = some line) :
    (lineYields file lines)[i]? = some (ofLine? file (i + 1) (headerThrough lines i) line) := by
  rw [lineYields, List.getElem?_mapIdx, h, Option.map_some]

end Suppression

/-! ## Directives that ignore a rule -/

namespace Directive

/-- the text before the first place at which a directive is read -/
theorem first?_eq_some {read : List Char → Option Directive} {alone : Bool} {cs : List Char} {p : PlacedDirective}
    (h : first? read alone cs = some p) :
    ∃ before comment, cs = before ++ comment ∧ read comment = some p.directive ∧
      p.alone = (alone && Text.isBlankText before) := by
  induction cs generalizing alone with
  | nil =>
    obtain ⟨d, hd, rfl⟩ := Option.map_eq_some_iff.1 h
    exact ⟨[], [], rfl, hd, by simp [Text.isBlankText]⟩
  | cons c cs ih =>
    rw [first?] at h
    cases hread : read (c :: cs) with
    | some d =>
      rw [hread] at h
      cases h
      exact ⟨[], c :: cs, rfl, hread, by simp [Text.isBlankText]⟩
    | none =>
      rw [hread] at h
      obtain ⟨before, comment, rfl, hcomment, halone⟩ := ih h
      exact ⟨c :: before, comment, rfl, hcomment, by simp [halone, Text.isBlankText, Bool.and_assoc]⟩

/-- a line's directive stands in a comment of one of the two forms, and is alone when only blanks stand before it -/
theorem ofLine?_eq_some {line : List Char} {p : PlacedDirective} (h : ofLine? line = some p) :
    ∃ before comment, line = before ++ comment ∧
      (readLine? comment = some p.directive ∨ readBlock? comment = some p.directive) ∧
      p.alone = Text.isBlankText before := by
  rcases Option.or_eq_some_iff.1 h with h | ⟨-, h⟩
  · obtain ⟨before, comment, hline, hread, halone⟩ := first?_eq_some h
    exact ⟨before, comment, hline, .inl hread, halone⟩
  · obtain ⟨before, comment, hline, hread, halone⟩ := first?_eq_some h
    exact ⟨before, comment, hline, .inr hread, halone⟩

end Directive

namespace Suppression

/-- A directive at the index of a line silences its rule on a line of some number: the line yields one suppression, this
covers the findings of its rule on the other line and no others, and none of them stays active. -/
structure Silences (file content : String) (i : Nat) (d : Directive) (scope : SuppressionScope) (number : Nat) : Prop where
  yields : (lineYields file (Text.lines content.toList))[i]? = some (some ⟨d.rule, d.reason, file, i + 1, scope⟩)
  covers : ∀ f, (⟨d.rule, d.reason, file, i + 1, scope⟩ : Suppression).covers f = true ↔
    f.file = file ∧ (d.rule = "*" ∨ sameKey d.rule f.rule = true) ∧ f.line = number
  suppressed : ∀ (found : List Finding), ∀ f ∈ found, f.file = file → (d.rule = "*" ∨ sameKey d.rule f.rule = true) →
    f.line = number → f ∉ (split (ofText file content) found).1 ∧
      ∃ x ∈ (split (ofText file content) found).2, x.finding = f

theorem silences_of_yields {file content : String} {i : Nat} {d : Directive} {scope : SuppressionScope} {number : Nat}
    (hy : (lineYields file (Text.lines content.toList))[i]? = some (some ⟨d.rule, d.reason, file, i + 1, scope⟩))
    (hn : scope = .line ∧ number = i + 1 ∨ scope = .nextLine ∧ number = i + 2) :
    Silences file content i d scope number := by
  have covers (f : Finding) : (⟨d.rule, d.reason, file, i + 1, scope⟩ : Suppression).covers f = true ↔
      f.file = file ∧ (d.rule = "*" ∨ sameKey d.rule f.rule = true) ∧ f.line = number := by
    rcases hn with ⟨rfl, rfl⟩ | ⟨rfl, rfl⟩ <;> simp [Suppression.covers, and_assoc]
  exact ⟨hy, covers, fun found f hf hfile hrule hline =>
    split_covered (mem_ofText hy) hf ((covers f).2 ⟨hfile, hrule, hline⟩)⟩

/-- **What an `ignore` directive silences.** A legible directive is read, whatever stands around its comment; and a
directive that is read silences its rule on its own line when something stands before its comment, and on the next line
when nothing does. -/
theorem ofText_ignore (file content : String) :
    (∀ w : WrittenDirective, w.Legible → w.OpensNone →
      Directive.ofLine? w.text = some ⟨Text.isBlankText w.before, w.directive⟩) ∧
    ∀ (i : Nat) (line : List Char) (p : PlacedDirective), (Text.lines content.toList)[i]? = some line →
      Directive.ofLine? line = some p → p.directive.kind = .ignore →
      ∃ before comment, line = before ++ comment ∧
        (Directive.readLine? comment = some p.directive ∨ Directive.readBlock? comment = some p.directive) ∧
        p.alone = Text.isBlankText before ∧
        (p.alone = false → Silences file content i p.directive .line (i + 1)) ∧
        (p.alone = true → Silences file content i p.directive .nextLine (i + 2)) := by
  refine ⟨fun w hw hnone => WrittenDirective.ofLine?_text hw hnone, fun i line p hline hp hkind => ?_⟩
  obtain ⟨before, comment, hbefore, hread, halone⟩ := Directive.ofLine?_eq_some hp
  have yields := lineYields_getElem? file hline
  have yielded : ofLine? file (i + 1) (headerThrough (Text.lines content.toList) i) line =
      some ⟨p.directive.rule, p.directive.reason, file, i + 1, if p.alone then .nextLine else .line⟩ := by
    rw [ofLine?, hp]
    simp only [ofDirective?, hkind]
  rw [yielded] at yields
  refine ⟨before, comment, hbefore, hread, halone, fun hcode => ?_, fun hblank => ?_⟩
  · rw [hcode] at yields
    exact silences_of_yields yields (.inl ⟨rfl, rfl⟩)
  · rw [hblank] at yields
    exact silences_of_yields yields (.inr ⟨rfl, rfl⟩)

/-- a block comment between two statements -/
theorem ofText_ignore_betweenCode :
    let content := "package p;\nrun(); /* callmatch:ignore s1523 - old */ go();"
    let w : WrittenDirective := ⟨"run(); ".toList, .block " go();".toList, .ignore, "s1523".toList, some "old".toList⟩
    w.Legible ∧ w.OpensNone ∧ (Text.lines content.toList)[1]? = some w.text ∧
      Silences "T.java" content 1 ⟨.ignore, "s1523", "old"⟩ .line 2 := by
  intro content w
  have hw : w.Legible := by
    refine ⟨by decide, by decide, Text.not_blank_of_all (by decide), ?_⟩
    rintro _ ⟨⟩
    refine ⟨by decide, ?_⟩
    rintro _ ⟨⟩
    decide
  have hnone : w.OpensNone := by
    rintro _ - kind
    cases kind <;> decide
  have hline : (Text.lines content.toList)[1]? = some w.text := by decide
  have hread := (ofText_ignore "T.java" content).1 w hw hnone
  obtain ⟨_, _, -, -, -, hcode, -⟩ := (ofText_ignore "T.java" content).2 1 w.text _ hline hread rfl
  exact ⟨hw, hnone, hline, hcode (by decide)⟩

/-- A block comment before code speaks of the next line, as if it were alone. -/
theorem blockBeforeCode_active :
    ¬ ∀ (file content : String) (w : WrittenDirective) (i : Nat) (after : List Char), w.Legible → w.OpensNone →
      w.kind = .ignore → (Text.lines content.toList)[i]? = some w.text → w.form = .block after →
      Text.isBlankText after = false → ∀ f : Finding, f.file = file → f.rule = w.directive.rule → f.line = i + 1 →
        f ∉ (split (ofText file content) [f]).1 := by
  intro h
  let content := "/* callmatch:ignore S1523 */ Class.forName(n);"
  let w : WrittenDirective := ⟨[], .block " Class.forName(n);".toList, .ignore, "S1523".toList, none⟩
  let f : Finding := ⟨"S1523", RuleKind.dynamicCode.message, "T.java", 1, 36, .warning⟩
  have hw : w.Legible := by
    refine ⟨by decide, by decide, Text.not_blank_of_all (by decide), ?_⟩
    rintro _ ⟨⟩
    exact ⟨by decide, nofun⟩
  have hnone : w.OpensNone := by
    rintro _ - kind
    cases kind <;> decide
  have inactive := h "T.java" content w 0 _ hw hnone rfl (by decide) rfl (by decide) f rfl (by decide) rfl
  exact inactive (by decide +kernel)

end Suppression

/-! ## NOSONAR -/

namespace Directive

/-- the whole word NOSONAR stands somewhere after two slashes -/
def Silenced (line : List Char) : Prop :=
  ∃ front between rest, line = front ++ '/' :: '/' :: (between ++ (silencer ++ rest)) ∧
    (∀ c ∈ between.getLast?, Text.isWord c = false) ∧ ∀ c ∈ rest.head?, Text.isWord c = false

theorem silencerHere_iff {before : Option Char} {cs : List Char} :
    silencerHere before cs = true ↔
      ∃ rest, cs = silencer ++ rest ∧ (∀ c ∈ before, Text.isWord c = false) ∧ ∀ c ∈ rest.head?, Text.isWord c = false := by
  have apart (o : Option Char) : (!o.any Text.isWord) = true ↔ ∀ c ∈ o, Text.isWord c = false := by
    cases o <;> simp
  rw [silencerHere, Bool.and_eq_true, Bool.and_eq_true, apart, apart, List.isPrefixOf_iff_prefix]
  constructor
  · rintro ⟨⟨hbefore, rest, rfl⟩, hrest⟩
    exact ⟨rest, rfl, hbefore, by simpa using hrest⟩
  · rintro ⟨rest, rfl, hbefore, hrest⟩
    exact ⟨⟨hbefore, rest, rfl⟩, by simpa using hrest⟩

theorem afterSilencer?_isSome {before : Option Char} {cs : List Char} :
    (afterSilencer? before cs).isSome = true ↔
      ∃ between rest, cs = between ++ (silencer ++ rest) ∧
        (∀ c ∈ (before.toList ++ between).getLast?, Text.isWord c = false) ∧ ∀ c ∈ rest.head?, Text.isWord c = false := by
  have first (o : Option Char) : o.toList.getLast? = o := by cases o <;> rfl
  induction cs generalizing before with
  | nil =>
    refine ⟨fun h => (nomatch h), fun ⟨between, rest, h, _⟩ => ?_⟩
    have hnil : silencer ++ rest = [] := (List.append_eq_nil_iff.1 h.symm).2
    exact absurd (List.append_eq_nil_iff.1 hnil).1 (by decide)
  | cons c cs ih =>
    have step : (afterSilencer? before (c :: cs)).isSome = true ↔
        (afterSilencer? (some c) cs).isSome = true ∨ silencerHere before (c :: cs) = true := by
      rw [afterSilencer?]
      cases afterSilencer? (some c) cs with
      | some rest => simp
      | none => cases silencerHere before (c :: cs) <;> simp
    refine step.trans ((or_congr ih silencerHere_iff).trans ?_)
    constructor
    · rintro (⟨between, rest, rfl, hbetween, hrest⟩ | ⟨rest, hcs, hbefore, hrest⟩)
      · exact ⟨c :: between, rest, rfl, by simpa using hbetween, hrest⟩
      · exact ⟨[], rest, hcs, by rwa [List.append_nil, first], hrest⟩
    · rintro ⟨between, rest, hcs, hbetween, hrest⟩
      cases between with
      | nil => exact .inr ⟨rest, hcs, by rwa [List.append_nil, first] at hbetween, hrest⟩
      | cons d between =>
        obtain ⟨rfl, rfl⟩ := List.cons.inj hcs
        exact .inl ⟨between, rest, rfl, by simpa using hbetween, hrest⟩

/-- A slash is no part of a word, so the word may follow the slashes at once. -/
theorem slash_getLast? {between : List Char} :
    (∀ c ∈ ('/' :: between).getLast?, Text.isWord c = false) ↔ ∀ c ∈ between.getLast?, Text.isWord c = false := by
  cases between with
  | nil =>
    have slash : Text.isWord '/' = false := by decide
    exact ⟨fun _ c hc => (nomatch hc), fun _ c hc => by rwa [← Option.some.inj hc]⟩
  | cons c between => rw [List.getLast?_cons_cons]

/-- **NOSONAR is found** on exactly the lines on which it stands as a whole word after two slashes. -/
theorem silencerReason?_isSome {line : List Char} : (silencerReason? line).isSome = true ↔ Silenced line := by
  induction line using silencerReason?.induct with
  | case1 rest =>
    rw [silencerReason?, Option.isSome_map, afterSilencer?_isSome]
    simp only [Option.toList_some, List.singleton_append, slash_getLast?]
    constructor
    · rintro ⟨between, rest, rfl, hbetween, hrest⟩
      exact ⟨[], between, rest, rfl, hbetween, hrest⟩
    · rintro ⟨front, between, rest', h, hbetween, hrest⟩
      -- the slashes that the word follows are the first ones or stand between these and the word
      match front with
      | [] =>
        obtain ⟨-, rfl⟩ := by simpa using h
        exact ⟨between, rest', rfl, hbetween, hrest⟩
      | [_] =>
        obtain ⟨-, rfl⟩ := by simpa using h
        exact ⟨'/' :: between, rest', rfl, slash_getLast?.2 hbetween, hrest⟩
      | _ :: _ :: front =>
        obtain ⟨-, -, rfl⟩ := by simpa using h
        refine ⟨front ++ '/' :: '/' :: between, rest', by simp, ?_, hrest⟩
        rw [List.getLast?_append_cons, List.getLast?_cons_cons]
        exact slash_getLast?.2 hbetween
  | case2 => simp [silencerReason?, Silenced]
  | case3 c rest hc ih =>
    have skip : silencerReason? (c :: rest) = silencerReason? rest := by
      rw [silencerReason?]
      exact hc
    rw [skip, ih]
    constructor
    · rintro ⟨front, between, rest', rfl, ends⟩
      exact ⟨c :: front, between, rest', rfl, ends⟩
    · rintro ⟨front, between, rest', h, ends⟩
      cases front with
      | nil =>
        obtain ⟨rfl, rfl⟩ := List.cons.inj h
        exact absurd rfl (hc _ rfl)
      | cons _ front =>
        obtain ⟨-, rfl⟩ := List.cons.inj h
        exact ⟨front, between, rest', rfl, ends⟩

end Directive

/-! ## Silenced lines of a scan -/

namespace Scan

/-- the findings of a file, divided by its suppressions -/
def Analyzed.split (rules : List Rule) (a : Analyzed) : List Finding × List SuppressedFinding :=
  Suppression.split a.suppressions (findings rules a.unit)

def Analyzed.lines (a : Analyzed) : List (List Char) :=
  Text.lines a.source.lossyText.toList

/-- a line with NOSONAR and no directive covers every finding on it -/
theorem silencer_covers (file : String) {content : String} {i : Nat} {line : List Char}
    (hline : (Text.lines content.toList)[i]? = some line) (hs : Directive.Silenced line)
    (hd : Directive.ofLine? line = none) :
    ∃ s ∈ Suppression.ofText file content, s.rule = "*" ∧ ∀ f, f.file = file → f.line = i + 1 → s.covers f = true := by
  obtain ⟨reason, hreason⟩ := Option.isSome_iff_exists.1 (Directive.silencerReason?_isSome.2 hs)
  have yields := Suppression.lineYields_getElem? file hline
  rw [Suppression.ofLine?, hd, hreason] at yields
  exact ⟨_, Suppression.mem_ofText yields, rfl, fun f hfile hf => by simp [Suppression.covers, hfile, hf]⟩

section Scans

variable [Recovery] {w : Workspace} {rules : List Rule} {base path : List Char} {paths : List (List Char)}

/-- the results of paths are those of the files at them -/
theorem concat_files {rs : List ScanResult} (h : List.Forall₂ (fun path r => fileResult w rules base path = .ok r) paths rs) :
    (ScanResult.concat rs).findings = (analyzedFiles w base paths).flatMap (fun a => (a.split rules).1) ∧
      (ScanResult.concat rs).suppressed = (analyzedFiles w base paths).flatMap fun a => (a.split rules).2 := by
  induction h with
  | nil => exact ⟨rfl, rfl⟩
  | @cons path r paths rs hr _ ih =>
    rw [fileResult] at hr
    cases hpath : analyze w base path with
    | error fault =>
      rw [hpath] at hr
      cases hr
    | ok outcome =>
      rw [hpath] at hr
      cases hr
      rw [← ScanResult.append_concat]
      cases outcome with
      | ok a =>
        have files : analyzedFiles w base (path :: paths) = a :: analyzedFiles w base paths := by
          simp [analyzedFiles, hpath]
        rw [files, List.flatMap_cons, List.flatMap_cons, ← ih.1, ← ih.2]
        exact ⟨rfl, rfl⟩
      | error e =>
        have files : analyzedFiles w base (path :: paths) = analyzedFiles w base paths := by
          simp [analyzedFiles, hpath]
        rw [files, ← ih.1, ← ih.2]
        exact ⟨rfl, rfl⟩

theorem run_files {logged : Logged} (h : run w rules base paths = .ok logged) :
    logged.result.findings.Perm ((analyzedFiles w base paths).flatMap fun a => (a.split rules).1) ∧
      logged.result.suppressed = (analyzedFiles w base paths).flatMap fun a => (a.split rules).2 := by
  obtain ⟨rs, hfiles, sorted⟩ := run_eq_ok h
  obtain ⟨found, suppressed⟩ := concat_files (mapM_eq_ok.1 hfiles)
  rw [sorted, ← found, ← suppressed]
  exact ⟨List.mergeSort_perm _ _, rfl⟩

theorem mem_analyzedFiles {a : Analyzed} (h : a ∈ analyzedFiles w base paths) :
    ∃ path ∈ paths, analyze w base path = .ok (.ok a) := by
  obtain ⟨path, hpath, h⟩ := List.mem_filterMap.1 h
  refine ⟨path, hpath, ?_⟩
  split at h
  · rename_i b hb
    cases h
    exact hb
  · cases h

/-- **NOSONAR silences its line**, when no directive is read there. The result of a scan is put together from the findings
of its files, and in none of them a finding on such a line stays active. On a line with a directive, the directive alone
counts. -/
theorem run_silenced (w : Workspace) (rules : List Rule) (base : List Char) (paths : List (List Char)) {logged : Logged}
    (hrun : run w rules base paths = .ok logged) :
    logged.result.findings.Perm ((analyzedFiles w base paths).flatMap fun a => (a.split rules).1) ∧
    logged.result.suppressed = (analyzedFiles w base paths).flatMap (fun a => (a.split rules).2) ∧
    ∀ a ∈ analyzedFiles w base paths, ∀ (i : Nat) (line : List Char), a.lines[i]? = some line → Directive.Silenced line →
      (Directive.ofLine? line = none → ∀ f ∈ findings rules a.unit, f.line = i + 1 →
        f ∉ (a.split rules).1 ∧ ∃ x ∈ (a.split rules).2, x.finding = f) ∧
      ∀ p, Directive.ofLine? line = some p →
        (Suppression.lineYields a.name a.lines)[i]? =
          some (Suppression.ofDirective? a.name (i + 1) (Suppression.headerThrough a.lines i) p) := by
  refine ⟨(run_files hrun).1, (run_files hrun).2, fun a ha i line hline hs => ⟨fun hd f hf hfline => ?_, fun p hp => ?_⟩⟩
  · obtain ⟨path, -, hpath⟩ := mem_analyzedFiles ha
    obtain ⟨s, hmem, -, hcovers⟩ := silencer_covers a.name hline hs hd
    have hfile : f.file = a.name := (file_of_mem_findings hf).trans (analyze_unit_path hpath)
    exact Suppression.split_covered hmem hf (hcovers f hfile hfline)
  · rw [Suppression.lineYields_getElem? a.name hline, Suppression.ofLine?, hp]

end Scans

/-- a line with a reflective call and a comment -/
def commentedLine (comment : String) : String :=
  "class T\x7bObject o=Class.forName(n);\x7d//" ++ comment

/-- a file with nothing but that line -/
def commentedFile (comment : String) : Workspace :=
  ⟨.folder [("T.java", .file (commentedLine comment).toUTF8.toList)], []⟩

/-- what is found at the reflective call -/
def commentedFinding : Finding :=
  ⟨"S1523", RuleKind.dynamicCode.message, "T.java", 1, 24, .warning⟩

/-- NOSONAR right after the slashes -/
theorem run_silenced_oneLine :
    let paths := ["T.java".toList]
    let w := commentedFile "NOSONAR"
    ∃ logged a, run w [.dynamicCode] [] paths = .ok logged ∧ a ∈ analyzedFiles w [] paths ∧
      a.lines[0]? = some (commentedLine "NOSONAR").toList ∧ Directive.Silenced (commentedLine "NOSONAR").toList ∧
      commentedFinding ∈ findings [.dynamicCode] a.unit ∧ commentedFinding ∉ (a.split [.dynamicCode]).1 ∧
      ∃ x ∈ (a.split [.dynamicCode]).2, x.finding = commentedFinding := by
  intro paths w
  have runs : (run w [.dynamicCode] [] paths).isOk = true := by decide +kernel
  have file : (analyzedFiles w [] paths).map (fun a => (a.lines, findings [.dynamicCode] a.unit)) =
      [([(commentedLine "NOSONAR").toList], [commentedFinding])] := by decide +kernel
  have silenced : Directive.Silenced (commentedLine "NOSONAR").toList :=
    Directive.silencerReason?_isSome.1 (by decide)
  have alone : Directive.ofLine? (commentedLine "NOSONAR").toList = none := by decide
  cases hrun : run w [.dynamicCode] [] paths with
  | error fault =>
    rw [hrun] at runs
    cases runs
  | ok logged =>
    obtain ⟨a, ha, hfile⟩ := List.map_eq_singleton_iff.1 file
    have hmem : a ∈ analyzedFiles w [] paths := ha ▸ List.mem_singleton_self a
    obtain ⟨hlines, hfound⟩ := Prod.mk.inj hfile
    have hline : a.lines[0]? = some (commentedLine "NOSONAR").toList := by rw [hlines]; rfl
    have hf : commentedFinding ∈ findings [.dynamicCode] a.unit := hfound ▸ List.mem_singleton_self _
    obtain ⟨inactive, suppressed⟩ :=
      ((run_silenced w [.dynamicCode] [] paths hrun).2.2 a hmem 0 _ hline silenced).1 alone commentedFinding hf rfl
    exact ⟨logged, a, rfl, hmem, hline, silenced, hf, inactive, suppressed⟩

/-- A directive on the line takes the place of NOSONAR, also when it speaks of another rule. -/
theorem directive_hides_silencer :
    ¬ ∀ (w : Workspace) (rules : List Rule) (base : List Char) (paths : List (List Char)),
      ∀ a ∈ analyzedFiles w base paths, ∀ (i : Nat) (line : List Char), a.lines[i]? = some line →
        Directive.Silenced line → ∀ f ∈ findings rules a.unit, f.line = i + 1 → f ∉ (a.split rules).1 := by
  intro h
  let comment := "callmatch:ignore S2699 // NOSONAR"
  let paths := ["T.java".toList]
  have file : (analyzedFiles (commentedFile comment) [] paths).map
      (fun a => (a.lines, findings [.dynamicCode] a.unit, (a.split [.dynamicCode]).1)) =
        [([(commentedLine comment).toList], [commentedFinding], [commentedFinding])] := by decide +kernel
  have silenced : Directive.Silenced (commentedLine comment).toList :=
    Directive.silencerReason?_isSome.1 (by decide)
  obtain ⟨a, ha, hfile⟩ := List.map_eq_singleton_iff.1 file
  obtain ⟨hlines, hrest⟩ := Prod.mk.inj hfile
  obtain ⟨hfound, hactive⟩ := Prod.mk.inj hrest
  refine h (commentedFile comment) [.dynamicCode] [] paths a (ha ▸ List.mem_singleton_self a) 0
    (commentedLine comment).toList (by rw [hlines]; rfl) silenced commentedFinding (hfound ▸ List.mem_singleton_self _) rfl ?_
  rw [hactive]
  exact List.mem_singleton_self _

end Scan

end CallLint
