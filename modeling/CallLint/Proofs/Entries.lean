/-
Entries of custom methods and their written form. `Signature.read_eq_ok`: a token is read as a signature exactly when,
without the blanks around it, it is the written form of that signature, and the signature is readable, i.e. its parts can
be told apart. In a list of entries no part may hold a comma either (`Writable`).

`read_written`: what is read can be written and read again, and a catalog can be written and read again if and only if
all its entries are writable.
-/
import CallLint.Signature.Entry
import Mathlib.Data.List.Basic

namespace CallLint

/-! ## Text without blanks -/

namespace Text

theorem trim_of_no_blank {cs : List Char} (h : ∀ c ∈ cs, isBlank c = false) : trim cs = cs := by
  have none {l : List Char} (hl : ∀ c ∈ l, isBlank c = false) : l.dropWhile isBlank = l := by
    cases l with
    | nil => rfl
    | cons c l => rw [List.dropWhile_cons_of_neg (by simp [hl c List.mem_cons_self])]
  rw [trim, trimStart, trimEnd, none h, none fun c hc => h c (List.mem_reverse.1 hc), List.reverse_reverse]

theorem mem_of_mem_trim {cs : List Char} {c : Char} (h : c ∈ trim cs) : c ∈ cs := by
  rw [trim, trimEnd, List.mem_reverse] at h
  have h := (List.dropWhile_sublist _).mem h
  exact (List.dropWhile_sublist _).mem (List.mem_reverse.1 h)

/-- blanks at the end are trimmed with those before them -/
theorem trimEnd_append {tail : List Char} (h : ∀ c ∈ tail, isBlank c = true) (cs : List Char) :
    trimEnd (cs ++ tail) = trimEnd cs := by
  rw [trimEnd, trimEnd, List.reverse_append, List.dropWhile_append_of_pos fun c hc => h c (List.mem_reverse.1 hc)]

theorem isBlankText_of_no_blank {cs : List Char} (hne : cs ≠ []) (h : ∀ c ∈ cs, isBlank c = false) :
    isBlankText cs = false := by
  obtain ⟨c, hc⟩ := List.exists_mem_of_ne_nil cs hne
  exact List.all_eq_false.2 ⟨c, hc, by simp [h c hc]⟩

theorem dropLeading_eq_some {pre cs rest : List Char} : dropLeading pre cs = some rest ↔ cs = pre ++ rest := by
  rw [dropLeading, ite_eq_iff]
  simp only [List.isPrefixOf_iff_prefix, Option.some.injEq, reduceCtorEq, and_false, or_false]
  constructor
  · rintro ⟨⟨suf, rfl⟩, h⟩
    simp_all
  · rintro rfl
    exact ⟨List.prefix_append pre rest, by simp⟩

theorem dropTrailing_eq_some {suf cs before : List Char} : dropTrailing suf cs = some before ↔ cs = before ++ suf := by
  rw [dropTrailing, ite_eq_iff]
  simp only [List.isSuffixOf_iff_suffix, Option.some.injEq, reduceCtorEq, and_false, or_false]
  constructor
  · rintro ⟨⟨pre, rfl⟩, h⟩
    simp_all
  · rintro rfl
    exact ⟨List.suffix_append before suf, by simp⟩

theorem dropTrailing_eq_none {suf cs : List Char} : dropTrailing suf cs = none ↔ ∀ before, cs ≠ before ++ suf := by
  rw [Option.eq_none_iff_forall_ne_some]
  exact forall_congr' fun before => not_congr dropTrailing_eq_some

end Text

/-! ## One entry -/

/-- a part of an entry: some text, without blanks and without certain marks -/
def IsPart (marks : List Char) (text : String) : Prop :=
  text ≠ "" ∧ ∀ c ∈ text.toList, Text.isBlank c = false ∧ c ∉ marks

namespace Signature

/-- the parts of the signature can be told apart in an entry of its own -/
structure Readable (s : Signature) : Prop where
  arity : s.arity = .any
  owner : IsPart ['#'] s.owner
  name : IsPart ['#', '*'] s.name.text

/-- the parts of the signature can be told apart in a list of entries -/
structure Writable (s : Signature) : Prop where
  arity : s.arity = .any
  owner : IsPart ['#', ','] s.owner
  name : IsPart ['#', ',', '*'] s.name.text

end Signature

theorem MethodName.toList_render (name : MethodName) :
    name.render.toList = name.text.toList ++ if name.isExact then [] else ['*'] := by
  cases name <;> simp [render, text, isExact]

namespace Signature

theorem toList_render (s : Signature) : s.render.toList = s.owner.toList ++ '#' :: s.name.render.toList := by
  simp [render]

/-- a member is the written form of its name -/
theorem readMember_eq_ok {member : List Char} (hne : member ≠ []) {name : MethodName} :
    readMember member = .ok name ↔ name.render.toList = member ∧ name.text ≠ "" ∧ '*' ∉ name.text.toList := by
  unfold readMember
  split
  · rename_i stem hstem
    obtain rfl := Text.dropTrailing_eq_some.1 hstem
    constructor
    · intro h
      split_ifs at h with hempty hstar
      obtain rfl := Except.ok.inj h
      simpa [MethodName.toList_render, MethodName.text, MethodName.isExact, hstar] using hempty
    · rintro ⟨hrender, htext, hstar⟩
      cases name with
      | exact text =>
        -- a whole name that ends in a star would read as a stem
        have : text.toList = stem ++ ['*'] := by simpa [MethodName.render] using hrender
        simp [MethodName.text, this] at hstar
      | startsWith text =>
        have : text.toList = stem := by simpa [MethodName.render] using hrender
        subst this
        have hstar : '*' ∉ text.toList := hstar
        rw [if_neg (by simpa [MethodName.text] using htext), if_neg hstar, String.ofList_toList]
  · rename_i hnone
    have hends := Text.dropTrailing_eq_none.1 hnone
    constructor
    · intro h
      split_ifs at h with hstar
      obtain rfl := Except.ok.inj h
      simpa [MethodName.render, MethodName.text, hstar] using hne
    · rintro ⟨hrender, htext, hstar⟩
      cases name with
      | exact text =>
        obtain rfl : text.toList = member := hrender
        have hstar : '*' ∉ text.toList := hstar
        rw [if_neg hstar, String.ofList_toList]
      | startsWith text => exact absurd (by simp [← hrender, MethodName.render]) (hends text.toList)

/-- blanks anywhere in an entry make it malformed, whichever message it gets -/
theorem readTrimmed_pair {owner member : List Char} {s : Signature} :
    (if Text.isBlankText owner then .error .emptyOwner
      else if Text.isBlankText member then .error .emptyMember
      else if (owner.getLast?.any Text.isBlank) || (member.head?.any Text.isBlank) then .error .spaceAroundSeparator
      else if owner.any Text.isBlank || member.any Text.isBlank then .error .innerBlank
      else (readMember member).map fun name => (⟨String.ofList owner, name, .any⟩ : Signature)) = .ok s ↔
      (owner ≠ [] ∧ ∀ c ∈ owner, Text.isBlank c = false) ∧ (member ≠ [] ∧ ∀ c ∈ member, Text.isBlank c = false) ∧
        ∃ name, readMember member = .ok name ∧ s = ⟨String.ofList owner, name, .any⟩ := by
  constructor
  · intro h
    split_ifs at h with howner hmember hends hinner
    simp only [Bool.or_eq_true, not_or, List.any_eq_true, not_exists, not_and, Bool.not_eq_true] at hinner
    refine ⟨⟨?_, hinner.1⟩, ⟨?_, hinner.2⟩, ?_⟩
    · rintro rfl
      exact howner rfl
    · rintro rfl
      exact hmember rfl
    · cases hname : readMember member with
      | error e => rw [hname] at h; cases h
      | ok name => rw [hname] at h; exact ⟨name, rfl, (Except.ok.inj h).symm⟩
  · rintro ⟨⟨howner, hob⟩, ⟨hmember, hmb⟩, name, hname, rfl⟩
    have none {cs : List Char} (h : ∀ c ∈ cs, Text.isBlank c = false) : cs.any Text.isBlank = false := by
      simpa using h
    have last : owner.getLast?.any Text.isBlank = false := by
      rw [Option.any_eq_false_iff_get]
      exact fun h => by simp [hob _ (List.mem_of_getLast? (Option.some_get h).symm)]
    have head : member.head?.any Text.isBlank = false := by
      rw [Option.any_eq_false_iff_get]
      exact fun h => by simp [hmb _ (List.mem_of_head? (Option.some_get h).symm)]
    simp [Text.isBlankText_of_no_blank howner hob, Text.isBlankText_of_no_blank hmember hmb, last, head, none hob,
      none hmb, hname, Except.map]

/-- what is written of a readable signature holds no blanks -/
theorem Readable.no_blank {s : Signature} (h : s.Readable) : ∀ c ∈ s.render.toList, Text.isBlank c = false := by
  intro c hc
  rw [toList_render, MethodName.toList_render] at hc
  simp only [List.mem_append, List.mem_cons] at hc
  rcases hc with hc | rfl | hc | hc
  · exact (h.owner.2 c hc).1
  · rfl
  · exact (h.name.2 c hc).1
  · split at hc
    · simp at hc
    · obtain rfl := List.mem_singleton.1 hc
      rfl

theorem render_ne_nil (s : Signature) : s.render.toList ≠ [] := by
  simp [toList_render]

/-- an entry without blanks around it -/
theorem readTrimmed_eq_ok {entry : List Char} {s : Signature} :
    readTrimmed entry = .ok s ↔ s.Readable ∧ s.render.toList = entry := by
  constructor
  · intro h
    unfold readTrimmed at h
    split at h
    · rename_i owner member hparts
      obtain ⟨rfl, howner, hmember⟩ := Text.splitAt_eq_pair.1 hparts
      obtain ⟨⟨hone, hob⟩, ⟨hmne, hmb⟩, name, hname, rfl⟩ := readTrimmed_pair.1 h
      obtain ⟨hrender, htext, hstar⟩ := (readMember_eq_ok hmne).1 hname
      have inMember : ∀ c ∈ name.text.toList, c ∈ member := by
        intro c hc
        rw [← hrender, MethodName.toList_render]
        exact List.mem_append_left _ hc
      refine ⟨⟨rfl, ⟨by simpa using hone, fun c hc => ?_⟩, htext, fun c hc => ⟨hmb c (inMember c hc), ?_⟩⟩, ?_⟩
      · rw [String.toList_ofList] at hc
        exact ⟨hob c hc, by rw [List.mem_singleton]; rintro rfl; exact howner hc⟩
      · rw [List.mem_pair]
        rintro (rfl | rfl)
        · exact hmember (inMember _ hc)
        · exact hstar hc
      · rw [toList_render, hrender, String.toList_ofList]
    · cases h
  · rintro ⟨h, rfl⟩
    have hmember : s.name.render.toList ≠ [] := by
      rw [MethodName.toList_render]
      exact List.append_ne_nil_of_left_ne_nil (by simpa using h.name.1) _
    have hname : readMember s.name.render.toList = .ok s.name :=
      (readMember_eq_ok hmember).2 ⟨rfl, h.name.1, fun hc => (h.name.2 _ hc).2 (by simp)⟩
    have hblank := h.no_blank
    rw [toList_render] at hblank ⊢
    have hparts : Text.splitAt '#' (s.owner.toList ++ '#' :: s.name.render.toList) =
        [s.owner.toList, s.name.render.toList] := by
      refine Text.splitAt_eq_pair.2 ⟨rfl, fun hc => (h.owner.2 _ hc).2 (by simp), fun hc => ?_⟩
      rw [MethodName.toList_render, List.mem_append] at hc
      rcases hc with hc | hc
      · exact (h.name.2 _ hc).2 (by simp)
      · split at hc <;> simp at hc
    rw [readTrimmed, hparts]
    refine readTrimmed_pair.2 ⟨⟨by simpa using h.owner.1, fun c hc => (h.owner.2 c hc).1⟩,
      ⟨hmember, fun c hc => hblank c (by simp [hc])⟩, s.name, hname, ?_⟩
    rw [String.ofList_toList, ← h.arity]

/-- **Entries are written forms.** A token is read as a signature exactly when it is the written form of that
signature, up to blanks around it, and the signature is readable. -/
theorem read_eq_ok {token : String} {s : Signature} :
    read token = .ok s ↔ s.Readable ∧ s.render.toList = Text.trim token.toList :=
  readTrimmed_eq_ok

theorem Readable.read_render {s : Signature} (h : s.Readable) : read s.render = .ok s :=
  read_eq_ok.2 ⟨h, (Text.trim_of_no_blank h.no_blank).symm⟩

/-- in a list of entries the comma is one more mark -/
theorem writable_iff {s : Signature} : s.Writable ↔ s.Readable ∧ ',' ∉ s.render.toList := by
  constructor
  · intro h
    refine ⟨⟨h.arity, ⟨h.owner.1, fun c hc => ?_⟩, h.name.1, fun c hc => ?_⟩, fun hc => ?_⟩
    · have := h.owner.2 c hc
      simp_all
    · have := h.name.2 c hc
      simp_all
    · rw [toList_render, MethodName.toList_render] at hc
      simp only [List.mem_append, List.mem_cons] at hc
      rcases hc with hc | hc | hc | hc
      · exact (h.owner.2 _ hc).2 (by simp)
      · exact absurd hc (by decide)
      · exact (h.name.2 _ hc).2 (by simp)
      · split at hc <;> simp at hc
  · rintro ⟨h, hcomma⟩
    rw [toList_render, MethodName.toList_render] at hcomma
    simp only [List.mem_append, List.mem_cons, not_or] at hcomma
    refine ⟨h.arity, ⟨h.owner.1, fun c hc => ?_⟩, h.name.1, fun c hc => ?_⟩
    · have := h.owner.2 c hc
      have : c ≠ ',' := fun hcc => hcomma.1 (hcc ▸ hc)
      simp_all
    · have := h.name.2 c hc
      have : c ≠ ',' := fun hcc => hcomma.2.2.1 (hcc ▸ hc)
      simp_all

end Signature

/-! ## Lists of entries -/

namespace EntryList

theorem ofTokens_append (as bs : List (List Char)) : ofTokens (as ++ bs) = (ofTokens as).append (ofTokens bs) := by
  induction as with
  | nil => simp [ofTokens, append]
  | cons a as ih => simp [ofTokens, append, ih]

/-- a comma between two texts sets their entries apart -/
theorem read_append_comma (a b : String) : read (a ++ "," ++ b) = (read a).append (read b) := by
  have : (a ++ "," ++ b).toList = a.toList ++ ',' :: b.toList := by simp
  rw [read, this, Text.splitAt_append, ofTokens_append]
  rfl

theorem mem_ofToken {token : List Char} {s : Signature} :
    s ∈ (ofToken token).signatures ↔ s.Readable ∧ s.render.toList = Text.trim token := by
  have hread : Signature.read (String.ofList token) = .ok s ↔ s.Readable ∧ s.render.toList = Text.trim token := by
    rw [Signature.read_eq_ok, String.toList_ofList]
  unfold ofToken
  split_ifs with hblank
  · refine ⟨fun h => by simp at h, fun ⟨_, h⟩ => ?_⟩
    have hmem : ∀ c ∈ Text.trim token, Text.isBlank c = true := fun c hc =>
      List.all_eq_true.1 hblank c (Text.mem_of_mem_trim hc)
    rw [← h] at hmem
    have := hmem '#' (by simp [Signature.toList_render])
    exact absurd this (by decide)
  · rw [← hread]
    split
    · rename_i t ht
      rw [ht, List.mem_singleton, Except.ok.injEq, eq_comm]
    · rename_i e he
      rw [he]
      simp

theorem mem_ofTokens {tokens : List (List Char)} {s : Signature} :
    s ∈ (ofTokens tokens).signatures ↔ ∃ token ∈ tokens, s.Readable ∧ s.render.toList = Text.trim token := by
  induction tokens with
  | nil => simp [ofTokens]
  | cons token tokens ih => simp [ofTokens, append, mem_ofToken, ih]

@[simp]
theorem mem_catalog {l : EntryList} {s : Signature} : s ∈ l.catalog ↔ s ∈ l.signatures :=
  Catalog.mem_ofList

/-- every signature that is read from a list can be written -/
theorem writable_of_mem_read {spec : String} {s : Signature} (h : s ∈ (read spec).signatures) : s.Writable := by
  obtain ⟨token, htoken, hr, hrender⟩ := mem_ofTokens.1 h
  refine Signature.writable_iff.2 ⟨hr, fun hc => ?_⟩
  rw [hrender] at hc
  exact Text.not_mem_of_mem_splitAt htoken (Text.mem_of_mem_trim hc)

/-- the written forms of readable signatures are read as those signatures -/
theorem ofTokens_render {ss : List Signature} (h : ∀ s ∈ ss, s.Readable) :
    ofTokens (ss.map fun s => s.render.toList) = ⟨ss, []⟩ := by
  induction ss with
  | nil => rfl
  | cons s ss ih =>
    have hs := h s List.mem_cons_self
    have one : ofToken s.render.toList = ⟨[s], []⟩ := by
      rw [ofToken, Text.isBlankText_of_no_blank s.render_ne_nil hs.no_blank, String.ofList_toList, hs.read_render]
      rfl
    rw [List.map_cons, ofTokens, one, ih fun t ht => h t (List.mem_cons_of_mem _ ht)]
    rfl

end EntryList

/-! ## Catalogs -/

theorem Text.joinWith_eq_intercalate (sep : Char) (parts : List (List Char)) :
    joinWith sep parts = [sep].intercalate parts := by
  induction parts with
  | nil => rfl
  | cons part parts ih =>
    cases parts with
    | nil => simp [joinWith]
    | cons next parts => rw [joinWith, ih, List.intercalate_cons_cons, List.append_assoc, List.singleton_append]

theorem Catalog.toList_render (c : Catalog) :
    c.render.toList = Text.joinWith ',' (c.entries.map fun s => s.render.toList) := by
  rw [render, String.toList_intercalate, Text.joinWith_eq_intercalate, List.map_map]
  rfl

/-- a catalog of writable signatures is read as it is written -/
theorem EntryList.read_render {c : Catalog} (h : ∀ s ∈ c, s.Writable) : read c.render = ⟨c.entries, []⟩ := by
  have readable (s : Signature) (hs : s ∈ c.entries) := (Signature.writable_iff.1 (h s hs))
  rw [read, Catalog.toList_render]
  by_cases hne : c.entries = []
  · rw [hne]
    rfl
  · rw [Text.splitAt_joinWith (by simpa using hne)]
    · exact ofTokens_render fun s hs => (readable s hs).1
    · intro part hpart
      obtain ⟨s, hs, rfl⟩ := List.mem_map.1 hpart
      exact (readable s hs).2

theorem Catalog.ofList_entries (c : Catalog) : (EntryList.mk c.entries []).catalog = c :=
  Catalog.ext_mem fun _ => EntryList.mem_catalog

/-- **The written form of catalogs.** What is read from a text is written and read again without change; a catalog is
written and read again without change, and without rejected entries, exactly when its entries are writable; and entries
that were read are writable. -/
theorem EntryList.read_written :
    (∀ spec : String, (read (read spec).catalog.render).catalog = (read spec).catalog ∧
      (read (read spec).catalog.render).rejected = []) ∧
    (∀ c : Catalog, ((read c.render).catalog = c ∧ (read c.render).rejected = []) ↔ ∀ s ∈ c, s.Writable) ∧
    ∀ spec : String, ∀ s ∈ (read spec).catalog, s.Writable := by
  have read_writable (spec : String) (s : Signature) (hs : s ∈ (read spec).catalog) : s.Writable :=
    writable_of_mem_read (mem_catalog.1 hs)
  have again {c : Catalog} (h : ∀ s ∈ c, s.Writable) :
      (read c.render).catalog = c ∧ (read c.render).rejected = [] := by
    rw [read_render h]
    exact ⟨c.ofList_entries, rfl⟩
  refine ⟨fun spec => again (read_writable spec), fun c => ⟨fun ⟨hc, _⟩ s hs => ?_, again⟩, read_writable⟩
  rw [← hc] at hs
  exact read_writable _ s hs

end CallLint
