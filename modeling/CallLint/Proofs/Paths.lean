/-
Paths that are joined and stripped. Joining puts texts together while stripping goes by components, and both agree on what
a path's components are: the start that its first segment gives it, and the steps of the segments after the start.

- `Path.components_join`: a relative path adds its steps to the components of the base;
- `Path.strip?_isSome_iff`: a path is stripped exactly when its components start with those of the base;
- `Path.components_join_strip?`: what is stripped, joined to the base again, has the components of the whole path.
-/
import CallLint.File.Path
import Mathlib.Data.List.DropRight

namespace CallLint.Path

variable {base path rest : List Char} {segments left : List (List Char)} {cs : List PathComponent}

/-! ## Steps of segments -/

/-- the steps that segments after the start make -/
def steps (segments : List (List Char)) : List PathComponent :=
  segments.filterMap componentOf?

theorem components_eq (path : List Char) :
    components path = (parts path).start.toList ++ steps (parts path).segments :=
  rfl

theorem steps_cons_none {s : List Char} (hs : componentOf? s = none) (segments : List (List Char)) :
    steps (s :: segments) = steps segments :=
  List.filterMap_cons_none hs

theorem steps_cons_some {s : List Char} {c : PathComponent} (hs : componentOf? s = some c) (segments : List (List Char)) :
    steps (s :: segments) = c :: steps segments :=
  List.filterMap_cons_some hs

theorem steps_append (segments more : List (List Char)) : steps (segments ++ more) = steps segments ++ steps more :=
  List.filterMap_append

theorem steps_reverse (segments : List (List Char)) : steps segments.reverse = (steps segments).reverse :=
  List.filterMap_reverse

/-- segments at the front that make no step may be left out -/
theorem steps_dropWhile (segments : List (List Char)) :
    steps (segments.dropWhile fun s => (componentOf? s).isNone) = steps segments := by
  induction segments with
  | nil => rfl
  | cons s segments ih =>
    rw [List.dropWhile_cons]
    split
    · rename_i hs
      rw [ih, steps_cons_none (Option.isNone_iff_eq_none.1 hs)]
    · rfl

/-- and so may those at the end -/
theorem steps_rdropWhile (segments : List (List Char)) :
    steps (segments.rdropWhile fun s => (componentOf? s).isNone) = steps segments := by
  rw [List.rdropWhile, steps_reverse, steps_dropWhile, steps_reverse, List.reverse_reverse]

theorem steps_trimSegments (segments : List (List Char)) : steps (trimSegments segments) = steps segments :=
  (steps_rdropWhile _).trans (steps_dropWhile segments)

theorem trimSegments_subset (segments : List (List Char)) : trimSegments segments ⊆ segments := by
  intro s hs
  exact (List.dropWhile_suffix _).subset ((List.rdropWhile_prefix _ _).subset hs)

/-- segments that are written down make the same steps when they are read -/
theorem steps_splitAt_joinWith (h : ∀ s ∈ segments, '/' ∉ s) :
    steps (Text.splitAt '/' (Text.joinWith '/' segments)) = steps segments := by
  by_cases hne : segments = []
  · subst hne
    rfl
  · rw [Text.splitAt_joinWith hne h]

/-! ## Starts of paths -/

/-- The first segment of a text is the path's root, its leading point, or a segment like those after it. -/
theorem parts_cases (path : List Char) :
    (∃ next more, Text.splitAt '/' path = [] :: next :: more ∧ parts path = ⟨some .root, next :: more⟩) ∨
      (∃ more, Text.splitAt '/' path = ['.'] :: more ∧ parts path = ⟨some .here, more⟩) ∨
      ∃ first more, Text.splitAt '/' path = first :: more ∧ (first = [] → more = []) ∧ first ≠ ['.'] ∧
        parts path = ⟨none, first :: more⟩ := by
  unfold parts
  split
  · rename_i next more h
    exact .inl ⟨next, more, h, rfl⟩
  · rename_i more h
    exact .inr (.inl ⟨more, h, rfl⟩)
  · rename_i hroot hhere
    obtain ⟨first, more, h⟩ := List.exists_cons_of_ne_nil (Text.splitAt_ne_nil '/' path)
    refine .inr (.inr ⟨first, more, h, ?_, ?_, by rw [h]⟩)
    · rintro rfl
      cases more with
      | nil => rfl
      | cons next more => exact absurd h (hroot next more)
    · rintro rfl
      exact hhere more h

theorem parts_root (rest : List Char) : parts ('/' :: rest) = ⟨some .root, Text.splitAt '/' rest⟩ := by
  rw [parts, Text.splitAt_cons_self]
  cases hrest : Text.splitAt '/' rest with
  | nil => exact absurd hrest (Text.splitAt_ne_nil '/' rest)
  | cons first more => rfl

theorem parts_here (rest : List Char) : parts ('.' :: '/' :: rest) = ⟨some .here, Text.splitAt '/' rest⟩ := by
  have cut : Text.splitAt '/' ('.' :: '/' :: rest) = ['.'] :: Text.splitAt '/' rest := Text.splitAt_append '/' ['.'] rest
  rw [parts, cut]
  rfl

theorem parts_segments_subset (path : List Char) : (parts path).segments ⊆ Text.splitAt '/' path := by
  obtain ⟨next, more, hcut, hparts⟩ | ⟨more, hcut, hparts⟩ | ⟨first, more, hcut, -, -, hparts⟩ := parts_cases path
  · rw [hparts, hcut]
    exact List.subset_cons_self _ _
  · rw [hparts, hcut]
    exact List.subset_cons_self _ _
  · rw [hparts, hcut]
    exact List.Subset.refl _

theorem not_mem_of_mem_parts {s : List Char} (h : s ∈ (parts path).segments) : '/' ∉ s :=
  Text.not_mem_of_mem_splitAt (parts_segments_subset path h)

/-- a first segment that is empty is the whole text, unless it is the root -/
theorem eq_nil_of_splitAt {first : List Char} {more : List (List Char)} (hcut : Text.splitAt '/' path = first :: more)
    (hempty : first = [] → more = []) (hfirst : first = []) : path = [] := by
  rw [← Text.joinWith_splitAt '/' path, hcut, hempty hfirst, hfirst]
  rfl

/-- only the empty path has no components -/
theorem eq_nil_of_components (h : components path = []) : path = [] := by
  rw [components_eq] at h
  obtain ⟨next, more, hcut, hparts⟩ | ⟨more, hcut, hparts⟩ | ⟨first, more, hcut, hempty, hpoint, hparts⟩ := parts_cases path
  · simp [hparts] at h
  · simp [hparts] at h
  · have makes : componentOf? first = none := by
      simp only [hparts, Option.toList_none, List.nil_append, steps, List.filterMap_eq_nil_iff] at h
      exact h first List.mem_cons_self
    apply eq_nil_of_splitAt hcut hempty
    unfold componentOf? at makes
    split at makes <;> simp_all

/-! ## Joined paths -/

theorem parts_append (hbase : base ≠ []) (path : List Char) :
    parts (base ++ '/' :: path) = ⟨(parts base).start, (parts base).segments ++ Text.splitAt '/' path⟩ := by
  have cut := Text.splitAt_append '/' base path
  obtain ⟨next, more, hcut, hparts⟩ | ⟨more, hcut, hparts⟩ | ⟨first, more, hcut, hempty, hpoint, hparts⟩ := parts_cases base
  · rw [hparts, parts, cut, hcut]
    rfl
  · rw [hparts, parts, cut, hcut]
    rfl
  · have hfirst : first ≠ [] := fun h => hbase (eq_nil_of_splitAt hcut hempty h)
    rw [hparts, parts, cut, hcut]
    simp [hfirst, hpoint]

/-- The segments of a relative path follow those of the base, which may have lost some that make no step. -/
theorem parts_join (hbase : base ≠ []) (hpath : isAbsolute path = false) :
    ∃ front, parts (join base path) = ⟨(parts base).start, front ++ Text.splitAt '/' path⟩ ∧
      steps front = steps (parts base).segments := by
  have hempty : base.isEmpty = false := by simpa using hbase
  rw [join, hpath, hempty, Bool.or_false, if_neg Bool.false_ne_true]
  split
  · rename_i hslash
    obtain ⟨front, rfl⟩ := List.isSuffixOf_iff_suffix.1 hslash
    rw [List.append_assoc, List.singleton_append]
    by_cases hfront : front = []
    · subst hfront
      exact ⟨[], parts_root path, rfl⟩
    · refine ⟨(parts front).segments, ?_, ?_⟩
      · rw [parts_append hfront, parts_append hfront]
      · rw [parts_append hfront, steps_append]
        exact (List.append_nil _).symm
  · exact ⟨_, parts_append hbase path, rfl⟩

/-- **A relative path adds its steps** to the components of the base. -/
theorem components_join (hbase : base ≠ []) (hpath : isAbsolute path = false) :
    components (join base path) = components base ++ steps (Text.splitAt '/' path) := by
  obtain ⟨front, hparts, hfront⟩ := parts_join hbase hpath
  rw [components_eq, hparts, steps_append, hfront, components_eq, List.append_assoc]

theorem join_of_isAbsolute (base : List Char) (hpath : isAbsolute path = true) : join base path = path := by
  rw [join, hpath, Bool.true_or, if_pos rfl]

theorem join_nil (path : List Char) : join [] path = path := by
  rw [join, List.isEmpty_nil, Bool.or_true, if_pos rfl]

theorem components_prefix_join (base : List Char) (hpath : isAbsolute path = false) :
    components base <+: components (join base path) := by
  by_cases hbase : base = []
  · subst hbase
    exact List.nil_prefix
  · rw [components_join hbase hpath]
    exact List.prefix_append _ _

/-! ## What follows the components of a base -/

theorem steps_of_dropSteps (h : dropSteps cs segments = some left) :
    steps segments = cs ++ steps left ∧ left ⊆ segments := by
  fun_induction dropSteps cs segments with
  | case1 segments =>
    cases h
    exact ⟨rfl, List.Subset.refl _⟩
  | case2 c cs => cases h
  | case3 c cs s segments hs ih =>
    obtain ⟨hsteps, hleft⟩ := ih h
    rw [steps_cons_none hs]
    exact ⟨hsteps, List.subset_cons_of_subset _ hleft⟩
  | case4 cs s segments found hs ih =>
    obtain ⟨hsteps, hleft⟩ := ih h
    rw [steps_cons_some hs]
    exact ⟨congrArg (found :: ·) hsteps, List.subset_cons_of_subset _ hleft⟩
  | case5 c cs s segments found hs hne => cases h

theorem dropSteps_isSome (h : cs <+: steps segments) : (dropSteps cs segments).isSome = true := by
  fun_induction dropSteps cs segments with
  | case1 segments => rfl
  | case2 c cs => exact absurd (List.prefix_nil.1 h) (List.cons_ne_nil _ _)
  | case3 c cs s segments hs ih =>
    rw [steps_cons_none hs] at h
    exact ih h
  | case4 cs s segments found hs ih =>
    rw [steps_cons_some hs, List.cons_prefix_cons] at h
    exact ih h.2
  | case5 c cs s segments found hs hne =>
    rw [steps_cons_some hs, List.cons_prefix_cons] at h
    exact absurd h.1.symm hne

/-- the segments of a path after its first components, if these are as given -/
def remaining? (cs : List PathComponent) (p : Parts) : Option (List (List Char)) :=
  match cs, p.start with
  | [], _ => none
  | c :: cs, some start => if c = start then dropSteps cs p.segments else none
  | cs, none => dropSteps cs p.segments

theorem strip?_eq (hbase : components base ≠ []) (path : List Char) :
    strip? base path =
      (remaining? (components base) (parts path)).map fun segments => Text.joinWith '/' (trimSegments segments) := by
  rw [strip?, if_neg (by simpa using hbase)]
  rfl

theorem components_of_remaining? (h : remaining? cs (parts path) = some left) :
    components path = cs ++ steps left ∧ left ⊆ (parts path).segments := by
  rw [components_eq]
  unfold remaining? at h
  split at h
  · cases h
  · rename_i c cs start hstart
    split_ifs at h with hc
    obtain ⟨hsteps, hleft⟩ := steps_of_dropSteps h
    rw [hstart, ← hc]
    exact ⟨congrArg (c :: ·) hsteps, hleft⟩
  · rename_i hstart
    rw [hstart]
    exact steps_of_dropSteps h

theorem remaining?_isSome (hcs : cs ≠ []) (h : cs <+: components path) : (remaining? cs (parts path)).isSome = true := by
  rw [components_eq] at h
  unfold remaining?
  split
  · exact absurd rfl hcs
  · rename_i c cs start hstart
    rw [hstart, Option.toList_some, List.singleton_append, List.cons_prefix_cons] at h
    rw [if_pos h.1]
    exact dropSteps_isSome h.2
  · rename_i hstart
    rw [hstart] at h
    exact dropSteps_isSome h

/-! ## Stripped paths -/

/-- **A path is stripped** exactly when its components start with those of the base. -/
theorem strip?_isSome_iff : (strip? base path).isSome = true ↔ components base <+: components path := by
  by_cases hbase : components base = []
  · rw [eq_nil_of_components hbase]
    exact ⟨fun _ => List.nil_prefix, fun _ => rfl⟩
  · rw [strip?_eq hbase, Option.isSome_map]
    constructor
    · intro h
      obtain ⟨left, hleft⟩ := Option.isSome_iff_exists.1 h
      exact ⟨steps left, (components_of_remaining? hleft).1.symm⟩
    · exact remaining?_isSome hbase

/-- no root is made of segments that were trimmed -/
theorem isAbsolute_joinWith_trimSegments (h : ∀ s ∈ segments, '/' ∉ s) :
    isAbsolute (Text.joinWith '/' (trimSegments segments)) = false := by
  cases htrim : trimSegments segments with
  | nil => rfl
  | cons first more =>
    have leads : first :: more <+: segments.dropWhile fun s => (componentOf? s).isNone :=
      htrim ▸ List.rdropWhile_prefix _ _
    have makes : (componentOf? first).isNone = false := by
      obtain ⟨after, hafter⟩ := leads
      have head := List.head?_dropWhile_not (fun s => (componentOf? s).isNone) segments
      rw [← hafter] at head
      exact head
    have plain : '/' ∉ first := h first (trimSegments_subset segments (htrim ▸ List.mem_cons_self))
    cases first with
    | nil => cases makes
    | cons c first =>
      have hc : c ≠ '/' := fun hc => plain (hc ▸ List.mem_cons_self)
      cases more <;> simp [Text.joinWith, isAbsolute, List.isPrefixOf, hc.symm]

/-- what is kept of a path without a start has none either -/
theorem components_joinWith_of_prefix {kept : List (List Char)} (hstart : (parts path).start = none)
    (hkept : kept <+: (parts path).segments) :
    components (Text.joinWith '/' kept) = steps (Text.splitAt '/' (Text.joinWith '/' kept)) := by
  obtain ⟨next, more, -, hparts⟩ | ⟨more, -, hparts⟩ | ⟨first, more, -, hempty, hpoint, hparts⟩ := parts_cases path
  · simp [hparts] at hstart
  · simp [hparts] at hstart
  · cases kept with
    | nil => rfl
    | cons s kept =>
      have cut : Text.splitAt '/' (Text.joinWith '/' (s :: kept)) = s :: kept :=
        Text.splitAt_joinWith (List.cons_ne_nil _ _) fun part hpart => not_mem_of_mem_parts (hkept.subset hpart)
      rw [hparts] at hkept
      obtain ⟨rfl, hmore⟩ := List.cons_prefix_cons.1 hkept
      rw [components, parts, cut]
      split
      · rename_i h
        cases h
        rw [hempty rfl] at hmore
        exact absurd (List.prefix_nil.1 hmore) (List.cons_ne_nil _ _)
      · rename_i h
        cases h
        exact absurd rfl hpoint
      · rfl

theorem components_trimEnd (path : List Char) : components (trimEnd path) = components path := by
  let kept := (parts path).segments.rdropWhile fun s => (componentOf? s).isNone
  have leads : kept <+: (parts path).segments := List.rdropWhile_prefix _ _
  have hkept : steps (Text.splitAt '/' (Text.joinWith '/' kept)) = steps (parts path).segments := by
    rw [steps_splitAt_joinWith fun s hs => not_mem_of_mem_parts (leads.subset hs)]
    exact steps_rdropWhile _
  rw [components_eq path, ← hkept]
  obtain ⟨next, more, -, hparts⟩ | ⟨more, -, hparts⟩ | ⟨first, more, -, -, -, hparts⟩ := parts_cases path
  · have hstart : (parts path).start = some .root := by rw [hparts]
    have trimmed : trimEnd path = '/' :: Text.joinWith '/' kept := by
      simp only [trimEnd, hstart]
      rfl
    rw [trimmed, hstart, components_eq, parts_root]
  · have hstart : (parts path).start = some .here := by rw [hparts]
    have trimmed : trimEnd path =
        if (Text.joinWith '/' kept).isEmpty then ['.'] else '.' :: '/' :: Text.joinWith '/' kept := by
      simp only [trimEnd, hstart]
      rfl
    rw [trimmed, hstart]
    split
    · rename_i hnil
      rw [List.isEmpty_iff.1 hnil]
      rfl
    · rw [components_eq, parts_here]
  · have hstart : (parts path).start = none := by rw [hparts]
    have trimmed : trimEnd path = Text.joinWith '/' kept := by
      simp only [trimEnd, hstart]
      rfl
    rw [trimmed, hstart]
    exact components_joinWith_of_prefix hstart leads

/-- **What is stripped leads back:** joined to the base again, it has the components that the path has. -/
theorem components_join_strip? (h : strip? base path = some rest) : components (join base rest) = components path := by
  by_cases hbase : components base = []
  · obtain rfl := eq_nil_of_components hbase
    cases h
    rw [join_nil, components_trimEnd]
  · rw [strip?_eq hbase] at h
    obtain ⟨left, hleft, rfl⟩ := Option.map_eq_some_iff.1 h
    obtain ⟨hsteps, hsub⟩ := components_of_remaining? hleft
    have plain : ∀ s ∈ left, '/' ∉ s := fun s hs => not_mem_of_mem_parts (hsub hs)
    have hne : base ≠ [] := by
      rintro rfl
      exact hbase rfl
    calc components (join base (Text.joinWith '/' (trimSegments left)))
        = components base ++ steps (Text.splitAt '/' (Text.joinWith '/' (trimSegments left))) :=
          components_join hne (isAbsolute_joinWith_trimSegments plain)
      _ = components base ++ steps left := by
          rw [steps_splitAt_joinWith fun s hs => plain s (trimSegments_subset left hs), steps_trimSegments]
      _ = components path := hsteps.symm

end CallLint.Path
