/-
Cutting text at a separator character. The parts of `splitAt sep` joined by `sep` give the text back
(`joinWith_splitAt`), no part holds the separator, and parts that do not hold it are told apart again once they are
joined (`splitAt_joinWith`).
-/
namespace CallLint.Text

/-- all parts between occurrences of `sep`; one part when there is none -/
def splitAt (sep : Char) : List Char → List (List Char)
  | [] => [[]]
  | c :: cs =>
    if c = sep then [] :: splitAt sep cs
    else
      match splitAt sep cs with
      | [] => [[c]]
      | part :: parts => (c :: part) :: parts

/-- the parts with one `sep` between each two -/
def joinWith (sep : Char) : List (List Char) → List Char
  | [] => []
  | [part] => part
  | part :: next :: parts => part ++ sep :: joinWith sep (next :: parts)

/-- what stands before and after the first `sep` -/
def splitFirst (sep : Char) : List Char → Option (List Char × List Char)
  | [] => none
  | c :: cs =>
    if c = sep then some ([], cs)
    else (splitFirst sep cs).map fun (before, after) => (c :: before, after)

/-- what stands before and after the last `sep` -/
def splitLast (sep : Char) (cs : List Char) : Option (List Char × List Char) :=
  (splitFirst sep cs.reverse).map fun (after, before) => (before.reverse, after.reverse)

/-- `splitAt` on strings -/
def splitString (sep : Char) (s : String) : List String :=
  (splitAt sep s.toList).map String.ofList

/-- `pre` taken away from the front, when it is there -/
def dropLeading (pre : List Char) (cs : List Char) : Option (List Char) :=
  if pre.isPrefixOf cs then some (cs.drop pre.length) else none

/-- `suf` taken away from the end, when it is there -/
def dropTrailing (suf : List Char) (cs : List Char) : Option (List Char) :=
  if suf.isSuffixOf cs then some (cs.take (cs.length - suf.length)) else none

theorem splitAt_cons (sep c : Char) (cs : List Char) :
    splitAt sep (c :: cs) =
      if c = sep then [] :: splitAt sep cs
      else
        match splitAt sep cs with
        | [] => [[c]]
        | part :: parts => (c :: part) :: parts :=
  rfl

theorem splitAt_ne_nil (sep : Char) (cs : List Char) : splitAt sep cs ≠ [] := by
  cases cs with
  | nil => exact List.cons_ne_nil _ _
  | cons c cs =>
    rw [splitAt_cons]
    split
    · exact List.cons_ne_nil _ _
    · cases splitAt sep cs <;> exact List.cons_ne_nil _ _

/-- The parts joined again are the text. -/
theorem joinWith_splitAt (sep : Char) (cs : List Char) : joinWith sep (splitAt sep cs) = cs := by
  induction cs with
  | nil => rfl
  | cons c cs ih =>
    rw [splitAt_cons]
    split
    · rename_i h
      subst h
      cases hp : splitAt c cs with
      | nil => exact absurd hp (splitAt_ne_nil c cs)
      | cons part parts => rw [hp] at ih; simp [joinWith, ih]
    · cases hp : splitAt sep cs with
      | nil => exact absurd hp (splitAt_ne_nil sep cs)
      | cons part parts =>
        rw [hp] at ih
        cases parts with
        | nil => simp_all [joinWith]
        | cons next parts => simp_all [joinWith]

theorem splitAt_cons_self (sep : Char) (cs : List Char) : splitAt sep (sep :: cs) = [] :: splitAt sep cs := by
  rw [splitAt_cons, if_pos rfl]

theorem splitAt_cons_of_ne {sep c : Char} {cs part : List Char} {parts : List (List Char)} (hc : c ≠ sep)
    (h : splitAt sep cs = part :: parts) : splitAt sep (c :: cs) = (c :: part) :: parts := by
  rw [splitAt_cons, if_neg hc, h]

/-- No part holds the separator. -/
theorem not_mem_of_mem_splitAt {sep : Char} {cs part : List Char} (h : part ∈ splitAt sep cs) : sep ∉ part := by
  induction cs generalizing part with
  | nil =>
    obtain rfl : part = [] := List.mem_singleton.1 h
    exact List.not_mem_nil
  | cons c cs ih =>
    by_cases hc : c = sep
    · subst hc
      rw [splitAt_cons_self] at h
      rcases List.mem_cons.1 h with rfl | h
      · exact List.not_mem_nil
      · exact ih h
    · cases hp : splitAt sep cs with
      | nil => exact absurd hp (splitAt_ne_nil sep cs)
      | cons first parts =>
        rw [splitAt_cons_of_ne hc hp] at h
        rw [hp] at ih
        rcases List.mem_cons.1 h with rfl | h
        · have := ih List.mem_cons_self
          grind
        · exact ih (List.mem_cons_of_mem _ h)

theorem splitAt_eq_single {sep : Char} {cs : List Char} (h : sep ∉ cs) : splitAt sep cs = [cs] := by
  induction cs with
  | nil => rfl
  | cons c cs ih =>
    obtain ⟨hc, hcs⟩ : sep ≠ c ∧ sep ∉ cs := by simpa using h
    exact splitAt_cons_of_ne (Ne.symm hc) (ih hcs)

/-- Cutting does not look beyond a separator. -/
theorem splitAt_append (sep : Char) (as bs : List Char) :
    splitAt sep (as ++ sep :: bs) = splitAt sep as ++ splitAt sep bs := by
  induction as with
  | nil => exact splitAt_cons_self sep bs
  | cons a as ih =>
    by_cases ha : a = sep
    · subst ha
      rw [List.cons_append, splitAt_cons_self, splitAt_cons_self, ih, List.cons_append]
    · cases hp : splitAt sep as with
      | nil => exact absurd hp (splitAt_ne_nil sep as)
      | cons part parts =>
        rw [hp, List.cons_append] at ih
        rw [List.cons_append, splitAt_cons_of_ne ha ih, splitAt_cons_of_ne ha hp, List.cons_append]

/-- Parts that hold no separator are told apart again. -/
theorem splitAt_joinWith {sep : Char} {parts : List (List Char)} (hne : parts ≠ []) (h : ∀ part ∈ parts, sep ∉ part) :
    splitAt sep (joinWith sep parts) = parts := by
  induction parts with
  | nil => exact absurd rfl hne
  | cons part parts ih =>
    have first : splitAt sep part = [part] := splitAt_eq_single (h part List.mem_cons_self)
    cases parts with
    | nil => exact first
    | cons next parts =>
      rw [joinWith, splitAt_append, first, ih (by simp) fun p hp => h p (List.mem_cons_of_mem _ hp), List.singleton_append]

/-- a text in two parts -/
theorem splitAt_eq_pair {sep : Char} {cs before after : List Char} :
    splitAt sep cs = [before, after] ↔ cs = before ++ sep :: after ∧ sep ∉ before ∧ sep ∉ after := by
  constructor
  · intro h
    have hmem : ∀ part ∈ [before, after], sep ∉ part := fun part hp => not_mem_of_mem_splitAt (h ▸ hp)
    refine ⟨?_, hmem before (by simp), hmem after (by simp)⟩
    rw [← joinWith_splitAt sep cs, h]
    rfl
  · rintro ⟨rfl, hb, ha⟩
    rw [splitAt_append, splitAt_eq_single hb, splitAt_eq_single ha, List.singleton_append]

theorem joinWith_cons {sep : Char} {part : List Char} {parts : List (List Char)} (h : parts ≠ []) :
    joinWith sep (part :: parts) = part ++ sep :: joinWith sep parts := by
  cases parts with
  | nil => exact absurd rfl h
  | cons next parts => rfl

theorem joinWith_concat {sep : Char} {parts : List (List Char)} (h : parts ≠ []) (part : List Char) :
    joinWith sep (parts ++ [part]) = joinWith sep parts ++ sep :: part := by
  induction parts with
  | nil => exact absurd rfl h
  | cons first parts ih =>
    cases parts with
    | nil => rfl
    | cons next parts =>
      have ne : next :: parts ≠ [] := List.cons_ne_nil _ _
      rw [List.cons_append, joinWith_cons (List.append_ne_nil_of_left_ne_nil ne _), ih ne, joinWith_cons ne,
        List.append_assoc, List.cons_append]

theorem splitFirst_eq_none {sep : Char} {cs : List Char} : splitFirst sep cs = none ↔ sep ∉ cs := by
  induction cs with
  | nil => simp [splitFirst]
  | cons c cs ih =>
    rw [splitFirst]
    split
    · rename_i h
      simp [h]
    · rename_i h
      simp [ih, Ne.symm h]

/-- the first separator is the one with none before it -/
theorem splitFirst_eq_some {sep : Char} {cs before after : List Char} :
    splitFirst sep cs = some (before, after) ↔ cs = before ++ sep :: after ∧ sep ∉ before := by
  induction cs generalizing before with
  | nil => simp [splitFirst]
  | cons c cs ih =>
    rw [splitFirst]
    split
    · rename_i h
      subst h
      cases before <;> grind
    · rename_i h
      cases before with
      | nil => simp [h]
      | cons b before =>
        simp only [Option.map_eq_some_iff, Prod.exists, Prod.mk.injEq, List.cons.injEq, List.cons_append]
        grind

/-- the last separator is the one with none after it -/
theorem splitLast_eq_some {sep : Char} {cs before after : List Char} :
    splitLast sep cs = some (before, after) ↔ cs = before ++ sep :: after ∧ sep ∉ after := by
  have parts : splitLast sep cs = some (before, after) ↔
      splitFirst sep cs.reverse = some (after.reverse, before.reverse) := by
    simp only [splitLast, Option.map_eq_some_iff, Prod.exists, Prod.mk.injEq, List.reverse_eq_iff]
    grind
  rw [parts, splitFirst_eq_some, List.mem_reverse, List.reverse_eq_iff]
  simp

end CallLint.Text
