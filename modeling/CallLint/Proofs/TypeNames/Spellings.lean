/-
Types as they are written. A dotted name is spelled with blanks, array brackets and type arguments anywhere in it
(`TypeName.Spells`); type arguments are whatever stands between angle brackets that are balanced. Erasing a spelling gives
the name back (`TypeName.erase_of_spells`).

A name whose first segment is known is resolved with `$` between its other segments (`NameTable.resolve?_known`). A name
whose first segment is not known gets its points back up to the first segment that starts with an upper-case letter
(`NameTable.resolve?_unknown`).
-/
import CallLint.Source.TypeName
import Mathlib.Tactic

namespace CallLint

namespace TypeName

/-! ## Spellings -/

/-- every angle bracket in the text has its partner -/
inductive Balanced : List Char → Prop
  | nil : Balanced []
  | char {c : Char} {cs : List Char} : c ≠ '<' → c ≠ '>' → Balanced cs → Balanced (c :: cs)
  | group {inner cs : List Char} : Balanced inner → Balanced cs → Balanced ('<' :: (inner ++ '>' :: cs))

/-- the character means nothing but itself in a type as written -/
def IsPlain (c : Char) : Prop :=
  c ≠ '<' ∧ c ≠ '>' ∧ c ≠ '[' ∧ c ≠ ']' ∧ Text.isBlank c = false

instance : DecidablePred IsPlain :=
  fun _ => inferInstanceAs (Decidable (_ ∧ _))

/-- the text is the name with type arguments, array brackets and blanks added to it -/
inductive Spells : List Char → List Char → Prop
  | nil : Spells [] []
  | char {c : Char} {name written : List Char} : IsPlain c → Spells name written → Spells (c :: name) (c :: written)
  | blank {c : Char} {name written : List Char} : Text.isBlank c = true → Spells name written → Spells name (c :: written)
  | bracket {c : Char} {name written : List Char} : c = '[' ∨ c = ']' → Spells name written → Spells name (c :: written)
  | arguments {args name written : List Char} : Balanced args → Spells name written →
    Spells name ('<' :: (args ++ '>' :: written))

/-- a name spells itself -/
theorem Spells.refl {name : List Char} (h : ∀ c ∈ name, IsPlain c) : Spells name name := by
  induction name with
  | nil => exact .nil
  | cons c name ih =>
    obtain ⟨hc, hname⟩ := List.forall_mem_cons.1 h
    exact .char hc (ih hname)

/-- in type arguments, text that is balanced is passed over -/
theorem eraseFrom_balanced {cs : List Char} (h : Balanced cs) (depth : Nat) (rest : List Char) :
    eraseFrom (depth + 1) (cs ++ rest) = eraseFrom (depth + 1) rest := by
  induction h generalizing depth rest with
  | nil => rfl
  | @char c cs hopen hclose _ ih =>
    have skipped : (c = '[' || c = ']' || Text.isBlank c || depth + 1 != 0) = true := by simp
    rw [List.cons_append, eraseFrom, if_neg hopen, if_neg hclose, if_pos skipped, ih]
  | @group inner cs _ _ ihInner ih =>
    rw [List.cons_append, List.append_assoc, List.cons_append, eraseFrom, if_pos rfl, ihInner, eraseFrom,
      if_neg (by decide), if_pos rfl, Nat.add_sub_cancel, ih]

/-- blanks are dropped -/
theorem eraseFrom_cons_blank {c : Char} (h : Text.isBlank c = true) (depth : Nat) (cs : List Char) :
    eraseFrom depth (c :: cs) = eraseFrom depth cs := by
  have hopen : c ≠ '<' := by
    rintro rfl
    cases h
  have hclose : c ≠ '>' := by
    rintro rfl
    cases h
  rw [eraseFrom, if_neg hopen, if_neg hclose, if_pos (by simp [h])]

theorem eraseFrom_of_spells {name written : List Char} (h : Spells name written) : eraseFrom 0 written = name := by
  induction h with
  | nil => rfl
  | @char c name written hc _ ih =>
    obtain ⟨hopen, hclose, hleft, hright, hblank⟩ := hc
    have kept : ¬(c = '[' || c = ']' || Text.isBlank c || 0 != 0) = true := by simp [hleft, hright, hblank]
    rw [eraseFrom, if_neg hopen, if_neg hclose, if_neg kept, ih]
  | blank hc _ ih => rw [eraseFrom_cons_blank hc, ih]
  | bracket hc _ ih =>
    rcases hc with rfl | rfl <;> exact ih
  | arguments hargs _ ih =>
    rw [eraseFrom, if_pos rfl, eraseFrom_balanced hargs, eraseFrom, if_neg (by decide), if_pos rfl, Nat.zero_add,
      Nat.sub_self, ih]

/-- a text that does not end with a point has no ellipsis at its end -/
theorem dropEllipses_reverse {name : List Char} (h : name.getLast? ≠ some '.') :
    dropEllipses name.reverse = name.reverse := by
  rw [List.getLast?_eq_head?_reverse] at h
  unfold dropEllipses
  split
  · rename_i heq
    rw [heq] at h
    exact absurd rfl h
  · rfl

/-- **Erasing a spelling gives the name back**, when that does not end with a point. -/
theorem erase_of_spells {name written : List Char} (h : Spells name written) (hlast : name.getLast? ≠ some '.') :
    erase written = name := by
  rw [erase, eraseFrom_of_spells h, dropEllipses_reverse hlast, List.reverse_reverse]

end TypeName

/-! ## Joined texts -/

namespace Text

variable {sep : Char}

theorem joinWith_append {as bs : List (List Char)} (ha : as ≠ []) (hb : bs ≠ []) :
    joinWith sep (as ++ bs) = joinWith sep as ++ sep :: joinWith sep bs := by
  induction as with
  | nil => exact absurd rfl ha
  | cons a as ih =>
    cases as with
    | nil => exact joinWith_cons hb
    | cons next as =>
      have more : next :: as ++ bs ≠ [] := List.cons_ne_nil _ _
      rw [List.cons_append, joinWith_cons more, ih (List.cons_ne_nil _ _), joinWith_cons (List.cons_ne_nil next as),
        List.append_assoc, List.cons_append]

theorem mem_joinWith {c : Char} {parts : List (List Char)} (h : c ∈ joinWith sep parts) :
    c = sep ∨ ∃ part ∈ parts, c ∈ part := by
  induction parts with
  | nil => cases h
  | cons part parts ih =>
    by_cases hp : parts = []
    · subst hp
      exact .inr ⟨part, List.mem_cons_self, h⟩
    · rw [joinWith_cons hp] at h
      rcases List.mem_append.1 h with h | h
      · exact .inr ⟨part, List.mem_cons_self, h⟩
      · rcases List.mem_cons.1 h with rfl | h
        · exact .inl rfl
        · exact (ih h).imp_right fun ⟨other, hother, hc⟩ => ⟨other, List.mem_cons_of_mem _ hother, hc⟩

/-- the text ends as its last part does -/
theorem getLast?_joinWith {last : List Char} (hlast : last ≠ []) (parts : List (List Char)) :
    (joinWith sep (parts ++ [last])).getLast? = last.getLast? := by
  by_cases hp : parts = []
  · subst hp
    rfl
  · rw [joinWith_concat hp, List.getLast?_append_of_ne_nil _ (List.cons_ne_nil _ _)]
    obtain ⟨c, cs, rfl⟩ := List.exists_cons_of_ne_nil hlast
    exact List.getLast?_cons_cons

/-- separators that are replaced between parts without them -/
theorem map_joinWith {other : Char} {parts : List (List Char)} (h : ∀ part ∈ parts, sep ∉ part) :
    (joinWith sep parts).map (fun c => if c = sep then other else c) = joinWith other parts := by
  have same {part : List Char} (hpart : sep ∉ part) : part.map (fun c => if c = sep then other else c) = part := by
    have each : ∀ c ∈ part, (if c = sep then other else c) = c := fun c hc =>
      if_neg fun hsep : c = sep => hpart (hsep ▸ hc)
    rw [List.map_congr_left each, List.map_id']
  induction parts with
  | nil => rfl
  | cons part parts ih =>
    obtain ⟨hpart, hparts⟩ := List.forall_mem_cons.1 h
    by_cases hp : parts = []
    · subst hp
      exact same hpart
    · rw [joinWith_cons hp, joinWith_cons hp, List.map_append, List.map_cons, same hpart, ih hparts, if_pos rfl]

end Text

/-! ## Resolved names -/

namespace TypeName

/-- a full name of packages and types -/
theorem joinBinary_append {packages rest : List (List Char)} {first : List Char}
    (hp : ∀ segment ∈ packages, startsUppercase segment = false) (hf : startsUppercase first = true) :
    joinBinary (packages ++ first :: rest) = Text.joinWith '.' (packages ++ [Text.joinWith '$' (first :: rest)]) := by
  induction packages with
  | nil =>
    cases rest with
    | nil => rfl
    | cons next rest => rw [List.nil_append, joinBinary, if_pos hf]; rfl
  | cons segment packages ih =>
    obtain ⟨hsegment, hpackages⟩ := List.forall_mem_cons.1 hp
    have some_ : packages ++ first :: rest ≠ [] := List.append_ne_nil_of_right_ne_nil _ (List.cons_ne_nil _ _)
    have all : packages ++ [Text.joinWith '$' (first :: rest)] ≠ [] :=
      List.append_ne_nil_of_right_ne_nil _ (List.cons_ne_nil _ _)
    obtain ⟨next, more, hmore⟩ := List.exists_cons_of_ne_nil some_
    rw [List.cons_append, hmore, joinBinary, if_neg (by simp [hsegment]), ← hmore, ih hpackages, List.cons_append,
      Text.joinWith_cons all]

theorem primitives_plain : ∀ word ∈ primitives, '.' ∉ word.toList ∧ startsUppercase word.toList = false := by
  decide

end TypeName

namespace NameTable

variable {t : NameTable} {written : String}

/-- the first segment of a dotted name and what follows it -/
theorem resolve?_dots {first rest : List Char} (herase : TypeName.erase written.toList = first ++ '.' :: rest)
    (hfirst : '.' ∉ first) :
    t.resolve? written =
      match t.resolveSimple? (String.ofList first) with
      | some base => some (base ++ "$" ++ String.ofList (rest.map fun c => if c = '.' then '$' else c))
      | none => some (String.ofList (TypeName.binary (first ++ '.' :: rest))) := by
  have word : String.ofList (first ++ '.' :: rest) ∉ TypeName.primitives := by
    intro hmem
    have plain := (TypeName.primitives_plain _ hmem).1
    rw [String.toList_ofList] at plain
    exact plain (by simp)
  have split : Text.splitFirst '.' (first ++ '.' :: rest) = some (first, rest) :=
    Text.splitFirst_eq_some.2 ⟨rfl, hfirst⟩
  have isName : ¬((first ++ '.' :: rest).isEmpty || TypeName.primitives.contains (String.ofList (first ++ '.' :: rest))) =
      true := by
    rw [Bool.or_eq_true, List.isEmpty_iff, List.contains_iff_mem]
    exact not_or.2 ⟨List.append_ne_nil_of_right_ne_nil _ (List.cons_ne_nil _ _), word⟩
  cases hbase : t.resolveSimple? (String.ofList first) <;> simp only [resolve?, herase, if_neg isName, split, hbase]

/-- a name whose first segment is known -/
theorem resolve?_known {first : List Char} {rest : List (List Char)} {base : String}
    (herase : TypeName.erase written.toList = Text.joinWith '.' (first :: rest)) (hne : first ≠ [])
    (hpoints : ∀ segment ∈ first :: rest, '.' ∉ segment) (hword : rest = [] → String.ofList first ∉ TypeName.primitives)
    (hbase : t.resolveSimple? (String.ofList first) = some base) :
    t.resolve? written = some (String.ofList (Text.joinWith '$' (base.toList :: rest))) := by
  obtain ⟨hfirst, hrest⟩ := List.forall_mem_cons.1 hpoints
  by_cases hr : rest = []
  · subst hr
    rw [Text.joinWith] at herase
    rw [resolve?, herase, Text.splitFirst_eq_none.2 hfirst, if_neg (by simp [hne, hword rfl]), Text.joinWith,
      String.ofList_toList]
    exact hbase
  · rw [Text.joinWith_cons hr] at herase
    rw [resolve?_dots herase hfirst, hbase, Text.joinWith_cons hr]
    dsimp only
    rw [Text.map_joinWith hrest]
    refine congrArg some (String.toList_inj.1 ?_)
    simp

/-- a full name whose first segment is not known -/
theorem resolve?_unknown {segment first : List Char} {packages rest : List (List Char)}
    (herase : TypeName.erase written.toList = Text.joinWith '.' (segment :: packages ++ first :: rest))
    (hpoints : ∀ part ∈ segment :: packages ++ first :: rest, '.' ∉ part)
    (hpackage : ∀ part ∈ segment :: packages, TypeName.startsUppercase part = false)
    (hfirst : TypeName.startsUppercase first = true) (hunknown : t.resolveSimple? (String.ofList segment) = none) :
    t.resolve? written =
      some (String.ofList (Text.joinWith '.' (segment :: packages ++ [Text.joinWith '$' (first :: rest)]))) := by
  have more : packages ++ first :: rest ≠ [] := List.append_ne_nil_of_right_ne_nil _ (List.cons_ne_nil _ _)
  have parts : Text.joinWith '.' (segment :: packages ++ first :: rest) =
      segment ++ '.' :: Text.joinWith '.' (packages ++ first :: rest) := Text.joinWith_cons more
  have all : segment :: packages ++ first :: rest ≠ [] := List.cons_ne_nil _ _
  rw [resolve?_dots (herase.trans parts) (hpoints segment List.mem_cons_self), hunknown]
  dsimp only
  rw [← parts, TypeName.binary, Text.splitAt_joinWith all hpoints, TypeName.joinBinary_append hpackage hfirst]

end NameTable

end CallLint
