/-
What is selected below a folder. `Selection.ofPath_exact` says it for every file system: the files of the language that
no skipped folder hides and no pattern excludes, each once, in the order of their paths. Names of folders count from the
folder on, so neither its own name nor those above it matter.
-/
import CallLint.Proofs.Catalogs.ByteOrder
import CallLint.Proofs.Scans.Orders
import CallLint.Scan.Selection

namespace CallLint

/-! ## File systems -/

/-- a name that an entry of a folder can have -/
structure IsEntryName (name : String) : Prop where
  nonempty : name ≠ ""
  noSlash : '/' ∉ name.toList
  notHere : name ≠ "."
  notUp : name ≠ ".."

namespace FileTree

/-- the entries of each folder have names of their own -/
inductive Lawful : FileTree → Prop
  | file (bytes : List UInt8) : Lawful (.file bytes)
  | folder {entries : List (String × FileTree)} : (entries.map (·.1)).Nodup → (∀ e ∈ entries, IsEntryName e.1) →
    (∀ e ∈ entries, Lawful e.2) → Lawful (.folder entries)

variable {t found : FileTree} {entries : List (String × FileTree)} {name : String} {place file : List String}

theorem at?_append (t : FileTree) (place file : List String) : t.at? (place ++ file) = (t.at? place).bind (·.at? file) := by
  induction place generalizing t with
  | nil => rfl
  | cons name place ih =>
    rw [List.cons_append, at?, at?, Option.bind_assoc]
    exact Option.bind_congr fun t _ => ih t

/-- in a folder with names of their own, an entry is found by its name -/
theorem Lawful.lookup_iff (h : Lawful (.folder entries)) : entries.lookup name = some t ↔ (name, t) ∈ entries := by
  cases h with
  | folder hnames _ _ =>
    constructor
    · intro ht
      obtain ⟨before, after, rfl, -⟩ := List.lookup_eq_some_iff.1 ht
      simp
    · intro hmem
      obtain ⟨before, after, rfl⟩ := List.append_of_mem hmem
      refine List.lookup_eq_some_iff.2 ⟨before, after, rfl, fun e he => ?_⟩
      rw [List.map_append, List.nodup_append] at hnames
      have other := hnames.2.2 e.1 (List.mem_map_of_mem he) name (by simp)
      simpa using other.symm

theorem Lawful.entry (h : Lawful (.folder entries)) (hmem : (name, t) ∈ entries) : IsEntryName name ∧ t.Lawful := by
  cases h with
  | folder _ hnames hlawful => exact ⟨hnames _ hmem, hlawful _ hmem⟩

/-- in a lawful tree the names on the way to a place are names of entries -/
theorem Lawful.names (h : t.Lawful) (ht : t.at? place = some found) : (∀ name ∈ place, IsEntryName name) ∧ found.Lawful := by
  induction place generalizing t with
  | nil =>
    cases ht
    exact ⟨nofun, h⟩
  | cons name place ih =>
    obtain ⟨inner, hentry, hinner⟩ := Option.bind_eq_some_iff.1 ht
    cases t with
    | file bytes => cases hentry
    | folder entries =>
      obtain ⟨hname, hlawful⟩ := h.entry (h.lookup_iff.1 hentry)
      exact (ih hlawful hinner).imp_left fun hplace => List.forall_mem_cons.2 ⟨hname, hplace⟩

end FileTree

/-! ## Files below a folder -/

namespace Selection

variable {entries : List (String × FileTree)} {file : List String} {name : String} {t : FileTree}

/-- the files of the language at or below an entry of a folder -/
def entryFiles : String × FileTree → List (List String)
  | (name, .file _) => if isSourceName name then [[name]] else []
  | (name, .folder entries) => if isSkippedFolder name then [] else (sourceFiles entries).map (name :: ·)

theorem sourceFiles_eq_flatMap (entries : List (String × FileTree)) : sourceFiles entries = entries.flatMap entryFiles := by
  induction entries with
  | nil => rw [sourceFiles, List.flatMap_nil]
  | cons e rest ih =>
    obtain ⟨name, t⟩ := e
    cases t <;> rw [sourceFiles, ih, List.flatMap_cons, entryFiles]

theorem mem_entryFiles_file {bytes : List UInt8} :
    file ∈ entryFiles (name, .file bytes) ↔ file = [name] ∧ isSourceName name = true := by
  rw [entryFiles]
  split <;> simp_all

theorem mem_entryFiles_folder :
    file ∈ entryFiles (name, .folder entries) ↔
      isSkippedFolder name = false ∧ ∃ below ∈ sourceFiles entries, file = name :: below := by
  rw [entryFiles]
  split
  · simp_all
  · simp_all only [Bool.not_eq_true, List.mem_map, true_and]
    exact exists_congr fun below => and_congr_right' eq_comm

theorem head_of_mem_entryFiles (h : file ∈ entryFiles (name, t)) : file.head? = some name := by
  cases t with
  | file bytes =>
    obtain ⟨rfl, -⟩ := mem_entryFiles_file.1 h
    rfl
  | folder entries =>
    obtain ⟨-, below, -, rfl⟩ := mem_entryFiles_folder.1 h
    rfl

/-- no file comes twice, since no folder has two entries of one name -/
theorem sourceFiles_nodup (h : t.Lawful) (ht : t = .folder entries) : (sourceFiles entries).Nodup := by
  induction h generalizing entries with
  | file bytes => cases ht
  | @folder entries hnames _ _ ih =>
    cases ht
    rw [sourceFiles_eq_flatMap, List.nodup_flatMap]
    refine ⟨fun e he => ?_, (List.pairwise_map.1 hnames).imp fun hne file ha hb => ?_⟩
    · obtain ⟨name, t⟩ := e
      cases t with
      | file bytes =>
        rw [entryFiles]
        split
        · exact List.nodup_singleton _
        · exact List.nodup_nil
      | folder inner =>
        rw [entryFiles]
        split
        · exact List.nodup_nil
        · exact (ih _ he rfl).map List.cons_injective
    · exact hne (Option.some.inj ((head_of_mem_entryFiles ha).symm.trans (head_of_mem_entryFiles hb)))

/-- **The files below a folder** are those in its tree that have a name of the language and are in no skipped folder. -/
theorem mem_sourceFiles_iff (h : (FileTree.folder entries).Lawful) :
    file ∈ sourceFiles entries ↔
      ∃ folders name bytes, file = folders ++ [name] ∧ (FileTree.folder entries).at? file = some (.file bytes) ∧
        isSourceName name = true ∧ ∀ folder ∈ folders, isSkippedFolder folder = false := by
  rw [sourceFiles_eq_flatMap, List.mem_flatMap]
  induction file generalizing entries with
  | nil =>
    constructor
    · rintro ⟨⟨name, t⟩, -, hmem⟩
      cases head_of_mem_entryFiles hmem
    · rintro ⟨folders, name, bytes, heq, -⟩
      exact absurd heq.symm (List.append_ne_nil_of_right_ne_nil _ (List.cons_ne_nil _ _))
  | cons first rest ih =>
    constructor
    · rintro ⟨⟨name, t⟩, hentry, hmem⟩
      obtain rfl := Option.some.inj (head_of_mem_entryFiles hmem)
      have found : entries.lookup first = some t := h.lookup_iff.2 hentry
      cases t with
      | file bytes =>
        obtain ⟨heq, hname⟩ := mem_entryFiles_file.1 hmem
        cases heq
        exact ⟨[], first, bytes, rfl, by simp [FileTree.at?, FileTree.entry?, found], hname, nofun⟩
      | folder inner =>
        obtain ⟨hskipped, below, hbelow, heq⟩ := mem_entryFiles_folder.1 hmem
        cases heq
        rw [sourceFiles_eq_flatMap, List.mem_flatMap] at hbelow
        obtain ⟨folders, name, bytes, rfl, hfile, hname, hfolders⟩ := (ih (h.entry hentry).2).1 hbelow
        refine ⟨first :: folders, name, bytes, rfl, ?_, hname, List.forall_mem_cons.2 ⟨hskipped, hfolders⟩⟩
        rw [FileTree.at?, FileTree.entry?, found]
        exact hfile
    · rintro ⟨folders, name, bytes, heq, hfile, hname, hfolders⟩
      obtain ⟨t, found, ht⟩ := Option.bind_eq_some_iff.1 hfile
      have hentry : (first, t) ∈ entries := h.lookup_iff.1 found
      refine ⟨(first, t), hentry, ?_⟩
      cases folders with
      | nil =>
        cases heq
        cases ht
        exact mem_entryFiles_file.2 ⟨rfl, hname⟩
      | cons folder folders =>
        cases heq
        obtain ⟨hskipped, hfolders⟩ := List.forall_mem_cons.1 hfolders
        cases t with
        | file bytes =>
          exfalso
          cases folders <;> cases ht
        | folder inner =>
          refine mem_entryFiles_folder.2 ⟨hskipped, folders ++ [name], ?_, rfl⟩
          rw [sourceFiles_eq_flatMap, List.mem_flatMap]
          exact (ih (h.entry hentry).2).2 ⟨folders, name, bytes, rfl, ht, hname, hfolders⟩

end Selection

/-! ## Paths of places -/

namespace Path

variable {name : String} {place file : List String}

theorem componentOf?_entry (h : IsEntryName name) : componentOf? name.toList = some (.name name.toList) := by
  unfold componentOf?
  split
  · exact absurd (String.toList_eq_nil_iff.1 ‹_›) h.nonempty
  · exact absurd (String.toList_inj.1 (‹_› : name.toList = ".".toList)) h.notHere
  · exact absurd (String.toList_inj.1 (‹_› : name.toList = "..".toList)) h.notUp
  · rfl

theorem splitAt_names {first : List Char} (hfirst : '/' ∉ first) (hplace : ∀ name ∈ place, IsEntryName name) :
    Text.splitAt '/' (first ++ place.flatMap fun name => '/' :: name.toList) = first :: place.map (·.toList) := by
  induction place generalizing first with
  | nil =>
    rw [List.flatMap_nil, List.append_nil]
    exact Text.splitAt_eq_single hfirst
  | cons name place ih =>
    obtain ⟨hname, hplace⟩ := List.forall_mem_cons.1 hplace
    rw [List.flatMap_cons, List.cons_append, Text.splitAt_append, Text.splitAt_eq_single hfirst, ih hname.noSlash hplace]
    rfl

/-- the path of a place has a root, and then the place's names -/
theorem parts_render (hplace : ∀ name ∈ place, IsEntryName name) (hne : place ≠ []) :
    parts (Workspace.render place) = ⟨some .root, place.map (·.toList)⟩ := by
  obtain ⟨name, more, rfl⟩ := List.exists_cons_of_ne_nil hne
  have cut := splitAt_names List.not_mem_nil hplace
  rw [List.nil_append] at cut
  rw [parts, Workspace.render, List.isEmpty_cons, if_neg Bool.false_ne_true, cut]
  rfl

theorem components_render (hplace : ∀ name ∈ place, IsEntryName name) :
    components (Workspace.render place) = .root :: place.map fun name => .name name.toList := by
  by_cases hne : place = []
  · subst hne
    rfl
  · have named : (place.map (·.toList)).filterMap componentOf? = place.map fun name => .name name.toList := by
      rw [List.filterMap_map, ← List.filterMap_eq_map]
      exact List.filterMap_congr fun name hname => componentOf?_entry (hplace name hname)
    rw [components, parts_render hplace hne]
    exact congrArg (PathComponent.root :: ·) named

theorem dropSteps_names (hplace : ∀ name ∈ place, IsEntryName name) (rest : List (List Char)) :
    dropSteps (place.map fun name => .name name.toList) (place.map (·.toList) ++ rest) = some rest := by
  induction place with
  | nil => simp [dropSteps]
  | cons name place ih =>
    obtain ⟨hname, hplace⟩ := List.forall_mem_cons.1 hplace
    rw [List.map_cons, List.map_cons, List.cons_append, dropSteps, componentOf?_entry hname]
    dsimp only
    rw [if_pos rfl, ih hplace]

theorem trimSegments_names (hfile : ∀ name ∈ file, IsEntryName name) :
    trimSegments (file.map (·.toList)) = file.map (·.toList) := by
  have kept (l : List (List Char)) (hl : ∀ part ∈ l, part ∈ file.map (·.toList)) :
      l.dropWhile (fun part => (componentOf? part).isNone) = l := by
    cases l with
    | nil => rfl
    | cons part parts =>
      obtain ⟨name, hname, rfl⟩ := List.mem_map.1 (hl part List.mem_cons_self)
      rw [List.dropWhile_cons, componentOf?_entry (hfile name hname)]
      rfl
  rw [trimSegments, kept _ fun _ h => h, kept _ fun _ h => List.mem_reverse.1 h, List.reverse_reverse]

/-- seen from a folder, a place below it has the path of the names from there on -/
theorem strip?_render (hplace : ∀ name ∈ place ++ file, IsEntryName name) (hne : file ≠ []) :
    strip? (Workspace.render place) (Workspace.render (place ++ file)) = some (Selection.relativeText file) := by
  obtain ⟨hbase, hfile⟩ := List.forall_mem_append.1 hplace
  have below : place ++ file ≠ [] := List.append_ne_nil_of_right_ne_nil place hne
  rw [strip?, components_render hbase, parts_render hplace below, List.map_append]
  dsimp only
  rw [if_pos rfl, dropSteps_names hbase, if_neg (by simp), Option.map_some, trimSegments_names hfile]
  rfl

end Path

/-! ## The order of paths -/

/-- Roots come first, then leading points, then steps up; names come last, in the order of their bytes. -/
def PathComponent.sortKey : PathComponent → List Nat
  | .root => [0]
  | .here => [1]
  | .up => [2]
  | .name text => 3 :: (Text.bytes (String.ofList text)).map UInt8.toNat

/-- the first path comes before the second one, component by component -/
def Path.Before (a b : List Char) : Prop :=
  (Path.components a).map PathComponent.sortKey < (Path.components b).map PathComponent.sortKey

theorem map_lt_map {α β : Type} [LT α] [LT β] {f : α → β} (hf : ∀ a b, a < b → f a < f b) {as bs : List α}
    (h : as < bs) : as.map f < bs.map f := by
  induction as generalizing bs with
  | nil =>
    cases bs with
    | nil => exact absurd h (List.not_lt_nil _)
    | cons b bs => exact List.nil_lt_cons _ _
  | cons a as ih =>
    cases bs with
    | nil => exact absurd h (List.not_lt_nil _)
    | cons b bs =>
      rw [List.map_cons, List.map_cons, List.cons_lt_cons_iff]
      rcases List.cons_lt_cons_iff.1 h with hab | ⟨rfl, hrest⟩
      · exact .inl (hf a b hab)
      · exact .inr ⟨rfl, ih hrest⟩

theorem PathComponent.sortKey_lt {a b : String} (h : a < b) : sortKey (.name a.toList) < sortKey (.name b.toList) := by
  rw [sortKey, sortKey, String.ofList_toList, String.ofList_toList, List.cons_lt_cons_iff]
  exact .inr ⟨rfl, map_lt_map (fun _ _ => UInt8.lt_iff_toNat_lt.1) (Text.bytes_lt h)⟩

theorem lt_of_compare {as bs : List String} (h : compare as bs = .lt) : as < bs := by
  induction as generalizing bs with
  | nil =>
    cases bs with
    | nil => cases h
    | cons b bs => exact List.nil_lt_cons _ _
  | cons a as ih =>
    cases bs with
    | nil => cases h
    | cons b bs =>
      have parts : (compare a b).then (compare as bs) = .lt := List.compareLex_cons_cons.symm.trans h
      rw [List.cons_lt_cons_iff]
      rcases Ordering.then_eq_lt.1 parts with hab | ⟨hab, hrest⟩
      · exact .inl (compareOfLessAndEq_eq_lt.1 hab)
      · exact .inr ⟨Std.LawfulEqCmp.eq_of_compare hab, ih hrest⟩

theorem Path.before_render {place file file' : List String} (hfile : ∀ name ∈ place ++ file, IsEntryName name)
    (hfile' : ∀ name ∈ place ++ file', IsEntryName name) (h : file < file') :
    Before (Workspace.render (place ++ file)) (Workspace.render (place ++ file')) := by
  have names : place ++ file < place ++ file' := List.append_left_lt h
  rw [Before, components_render hfile, components_render hfile', List.map_cons, List.map_cons, List.map_map, List.map_map,
    List.cons_lt_cons_iff]
  exact .inr ⟨rfl, map_lt_map (fun _ _ => PathComponent.sortKey_lt) names⟩

/-- a list sorted in an order in which no two different items are equal, without items that come twice, ascends -/
theorem pairwise_lt_mergeSort {l : List (List String)} (h : l.Nodup) :
    (l.mergeSort fun a b => (compare a b).isLE).Pairwise (· < ·) := by
  have distinct := (List.mergeSort_perm l fun a b => (compare a b).isLE).nodup_iff.2 h
  refine ((pairwise_mergeSort_cmp l).and distinct).imp fun {a b} ⟨hle, hne⟩ => lt_of_compare ?_
  cases hab : compare a b with
  | lt => rfl
  | eq => exact absurd (Std.LawfulEqCmp.eq_of_compare hab) hne
  | gt =>
    rw [hab] at hle
    cases hle

/-! ## The selection -/

namespace Selection

variable {name : String}

theorem handles_iff {ext : List Char} : Language.handles ext = true ↔ ext = "java".toList := by
  rw [Language.handles, Language.extensions, List.contains_iff_mem, List.mem_singleton, ← String.toList_inj,
    String.toList_ofList]

/-- an extension follows the last point of a name, and a stem comes before it -/
theorem extensionOfName?_eq_some {cs ext : List Char} :
    Path.extensionOfName? cs = some ext ↔ ∃ stem, stem ≠ [] ∧ cs = stem ++ '.' :: ext ∧ '.' ∉ ext := by
  have cuts {before after : List Char} (h : Text.splitLast '.' cs = some (before, after)) :
      Path.extensionOfName? cs = if before = [] then none else some after := by
    rw [Path.extensionOfName?, h]
    cases before <;> rfl
  constructor
  · intro h
    cases hcut : Text.splitLast '.' cs with
    | none =>
      rw [Path.extensionOfName?, hcut] at h
      cases h
    | some parts =>
      obtain ⟨before, after⟩ := parts
      obtain ⟨hne, heq⟩ : before ≠ [] ∧ after = ext := by simpa [cuts hcut] using h
      subst heq
      exact ⟨before, hne, Text.splitLast_eq_some.1 hcut⟩
  · rintro ⟨stem, hne, hcs⟩
    rw [cuts (Text.splitLast_eq_some.2 hcs), if_neg hne]

/-- a name of the language has a stem, which may be anything -/
theorem isSourceName_iff : isSourceName name = true ↔ ∃ stem, stem ≠ "" ∧ name = stem ++ ".java" := by
  have named : isSourceName name = true ↔ Path.extensionOfName? name.toList = some "java".toList := by
    rw [isSourceName, Option.any_eq_true]
    simp only [handles_iff, exists_eq_right]
  rw [named, extensionOfName?_eq_some]
  constructor
  · rintro ⟨stem, hne, hname, -⟩
    refine ⟨String.ofList stem, by simpa using hne, String.toList_inj.1 ?_⟩
    simp [hname]
  · rintro ⟨stem, hne, rfl⟩
    exact ⟨stem.toList, by simpa using hne, String.toList_append, by decide⟩

theorem isSkippedFolder_eq_false :
    isSkippedFolder name = false ↔ name.toList.head? ≠ some '.' ∧ name ≠ "build" ∧ name ≠ "target" ∧ name ≠ "out" := by
  have hidden : ['.'].isPrefixOf name.toList = true ↔ name.toList.head? = some '.' := by
    cases name.toList with
    | nil => simp [List.isPrefixOf]
    | cons c cs =>
      rw [List.isPrefixOf, List.isPrefixOf, Bool.and_true, beq_iff_eq, List.head?_cons, Option.some_inj]
      exact eq_comm
  rw [isSkippedFolder, Bool.or_eq_false_iff, ← Bool.not_eq_true, hidden]
  simp [outputFolders]

/-- the files below a folder that are not excluded -/
def keptFiles (exclusions : Globs) (entries : List (String × FileTree)) : List (List String) :=
  (sourceFiles entries).filter fun file => !exclusions.accepts (relativeText file)

theorem ofFolder_paths (exclusions : Globs) (place : List String) (entries : List (String × FileTree)) :
    (ofFolder exclusions place entries).paths =
      ((keptFiles exclusions entries).mergeSort fun a b => (compare a b).isLE).map fun file =>
        Workspace.render (place ++ file) := by
  rw [ofFolder, List.partition_eq_filter_filter]
  rfl

theorem mem_ofFolder_paths {exclusions : Globs} {place : List String} {path : List Char} :
    path ∈ (ofFolder exclusions place entries).paths ↔
      ∃ file ∈ sourceFiles entries, exclusions.accepts (relativeText file) = false ∧
        path = Workspace.render (place ++ file) := by
  simp only [ofFolder_paths, List.mem_map, List.mem_mergeSort, keptFiles, List.mem_filter, Bool.not_eq_true', and_assoc,
    @eq_comm _ path]

/-- **Below a folder exactly the right files are selected.** In a lawful file system a path that leads to a folder
selects, each once and in the order of their components, the paths of the files with a name in `.java` below the folder
that are in no folder below it with a leading point or a name of build output, and whose path from the folder on is not
excluded. -/
theorem ofPath_exact {w : Workspace} (hw : w.root.Lawful) {given : List Char} {place : List String}
    (hgiven : w.resolve given = .ok place) {entries : List (String × FileTree)}
    (hplace : w.root.at? place = some (.folder entries)) (exclusions : Globs) :
    ∃ selection, ofPath w exclusions given = .ok selection ∧ selection.base = Workspace.render place ∧
      selection.paths.Nodup ∧ selection.paths.Pairwise Path.Before ∧
      ∀ path, path ∈ selection.paths ↔
        ∃ folders stem bytes, stem ≠ "" ∧ path = Workspace.render (place ++ folders ++ [stem ++ ".java"]) ∧
          w.root.at? (place ++ folders ++ [stem ++ ".java"]) = some (.file bytes) ∧
          (∀ folder ∈ folders,
            folder.toList.head? ≠ some '.' ∧ folder ≠ "build" ∧ folder ≠ "target" ∧ folder ≠ "out") ∧
          ∃ rel, Path.strip? (Workspace.render place) path = some rel ∧ exclusions.accepts rel = false := by
  obtain ⟨-, hlawful⟩ := hw.names hplace
  have below {file : List String} (hfile : file ∈ sourceFiles entries) : ∀ name ∈ place ++ file, IsEntryName name := by
    obtain ⟨_, _, bytes, -, hat, -⟩ := (mem_sourceFiles_iff hlawful).1 hfile
    have found : w.root.at? (place ++ file) = some (.file bytes) := by
      rw [FileTree.at?_append, hplace]
      exact hat
    exact (hw.names found).1
  refine ⟨ofFolder exclusions place entries, ?_, rfl, ?_⟩
  · rw [ofPath, hgiven]
    dsimp only [bind, Except.bind]
    rw [hplace]
    rfl
  have ascending : (ofFolder exclusions place entries).paths.Pairwise Path.Before := by
    have distinct : (keptFiles exclusions entries).Nodup := (sourceFiles_nodup hlawful rfl).filter _
    rw [ofFolder_paths, List.pairwise_map]
    refine (pairwise_lt_mergeSort distinct).imp_of_mem fun ha hb hab => Path.before_render (below ?_) (below ?_) hab
    · exact (List.mem_filter.1 (List.mem_mergeSort.1 ha)).1
    · exact (List.mem_filter.1 (List.mem_mergeSort.1 hb)).1
  refine ⟨ascending.imp fun hab heq => ?_, ascending, fun path => ?_⟩
  · subst heq
    exact List.lt_irrefl _ hab
  · rw [mem_ofFolder_paths]
    constructor
    · rintro ⟨file, hfile, hkept, rfl⟩
      obtain ⟨folders, name, bytes, rfl, hat, hname, hfolders⟩ := (mem_sourceFiles_iff hlawful).1 hfile
      obtain ⟨stem, hstem, rfl⟩ := isSourceName_iff.1 hname
      have names := below hfile
      rw [← List.append_assoc] at names
      refine ⟨folders, stem, bytes, hstem, by rw [List.append_assoc], ?_, fun folder hfolder =>
        isSkippedFolder_eq_false.1 (hfolders folder hfolder), _, Path.strip?_render (below hfile) (by simp), hkept⟩
      rw [List.append_assoc, FileTree.at?_append, hplace]
      exact hat
    · rintro ⟨folders, stem, bytes, hstem, rfl, hat, hfolders, rel, hrel, hkept⟩
      rw [List.append_assoc, FileTree.at?_append, hplace] at hat
      have hfile : folders ++ [stem ++ ".java"] ∈ sourceFiles entries := (mem_sourceFiles_iff hlawful).2
        ⟨folders, _, bytes, rfl, hat, isSourceName_iff.2 ⟨stem, hstem, rfl⟩, fun folder hfolder =>
          isSkippedFolder_eq_false.2 (hfolders folder hfolder)⟩
      rw [List.append_assoc, Path.strip?_render (below hfile) (by simp)] at hrel
      cases hrel
      exact ⟨_, hfile, hkept, by rw [List.append_assoc]⟩

/-- a folder named like build output, with a hidden file and a folder of build output in it -/
def outputWorkspace : Workspace :=
  ⟨.folder [("build", .folder [(".A.java", .file []), ("out", .folder [("B.java", .file [])])])], []⟩

theorem outputWorkspace_lawful : outputWorkspace.root.Lawful := by
  have entryName (name : String) (h : name ∈ ["build", ".A.java", "out", "B.java"]) : IsEntryName name := by
    fin_cases h <;> exact ⟨by decide, by decide, by decide, by decide⟩
  have out : FileTree.Lawful (.folder [("B.java", .file [])]) :=
    .folder (by decide) (by simp [entryName]) (by simp [FileTree.Lawful.file])
  have build : FileTree.Lawful (.folder [(".A.java", .file []), ("out", .folder [("B.java", .file [])])]) :=
    .folder (by decide) (by simp [entryName]) (by simp [FileTree.Lawful.file, out])
  exact .folder (by decide) (by simp [entryName]) (by simp [build])

/-- The name of the folder itself does not hide its files, nor does the point before a file's name. -/
theorem outputWorkspace_exact :
    outputWorkspace.root.Lawful ∧ outputWorkspace.resolve "/build".toList = .ok ["build"] ∧
      ∃ selection, ofPath outputWorkspace ⟨[]⟩ "/build".toList = .ok selection ∧ selection.paths.Nodup ∧
        "/build/.A.java".toList ∈ selection.paths := by
  have resolved : outputWorkspace.resolve "/build".toList = .ok ["build"] := by decide +kernel
  obtain ⟨selection, hselection, -, hnodup, -, hpaths⟩ := ofPath_exact outputWorkspace_lawful resolved rfl ⟨[]⟩
  refine ⟨outputWorkspace_lawful, resolved, selection, hselection, hnodup, (hpaths _).2 ?_⟩
  exact ⟨[], ".A", [], by decide, by decide, by rfl, nofun, ".A.java".toList, by decide, rfl⟩

end Selection

end CallLint
