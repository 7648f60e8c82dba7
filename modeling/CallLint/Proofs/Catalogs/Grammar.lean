/-
The grammar of entries, and what the tokens of a list of entries come to. An `EntryForm` is an owner and a member that
the grammar allows. `Signature.read_grammar`: a token is read exactly when, without the blanks around it, it is such an
owner and such a member with the separator between them; every other token is an error, and a list of entries leaves it
out and nothing else.

`EntryList.read_tokenwise`: the tokens of a list do not depend on each other. Each one is blank, or an entry, or rejected
as it is written, wherever it stands. So two lists joined by a comma give what each of them gives, and the order of the
tokens matters to the order of the rejections only.
-/
import CallLint.Proofs.Entries

namespace CallLint

/-! ## The grammar -/

/-- an entry that the grammar allows -/
structure EntryForm where
  owner : List Char
  member : List Char
  owner_ne_nil : owner ≠ []
  owner_plain : ∀ c ∈ owner, Text.isBlank c = false ∧ c ≠ '#'
  member_ne_nil : member ≠ []
  member_plain : ∀ c ∈ member, Text.isBlank c = false ∧ c ≠ '#'
  /-- the member has one star at most -/
  one_star : member.count '*' ≤ 1
  /-- a star is the last character of the member, and not its first -/
  star_last : '*' ∈ member → ∃ stem, stem ≠ [] ∧ member = stem ++ ['*']

/-- the methods that a member names: with a star, those that start with the rest of it -/
def MethodName.ofMember (member : List Char) : MethodName :=
  if '*' ∈ member then .startsWith (String.ofList (member.erase '*')) else .exact (String.ofList member)

theorem MethodName.ofMember_stem {stem : List Char} (h : '*' ∉ stem) :
    ofMember (stem ++ ['*']) = .startsWith (String.ofList stem) := by
  have erased : (stem ++ ['*']).erase '*' = stem := by
    rw [List.erase_append_right _ h, List.erase_cons_head, List.append_nil]
  rw [ofMember, if_pos (by simp), erased]

theorem MethodName.ofMember_plain {member : List Char} (h : '*' ∉ member) :
    ofMember member = .exact (String.ofList member) :=
  if_neg h

namespace EntryForm

/-- the entry as it is written -/
def text (e : EntryForm) : List Char :=
  e.owner ++ '#' :: e.member

/-- what the entry stands for -/
def signature (e : EntryForm) : Signature :=
  ⟨String.ofList e.owner, .ofMember e.member, .any⟩

/-- a member is a name, or a stem and a star -/
theorem member_cases (e : EntryForm) : '*' ∉ e.member ∨ ∃ stem, stem ≠ [] ∧ '*' ∉ stem ∧ e.member = stem ++ ['*'] := by
  by_cases hstar : '*' ∈ e.member
  · obtain ⟨stem, hne, hstem⟩ := e.star_last hstar
    have once := e.one_star
    rw [hstem, List.count_append, List.count_singleton_self] at once
    exact .inr ⟨stem, hne, List.count_eq_zero.1 (by omega), hstem⟩
  · exact .inl hstar

theorem signature_render (e : EntryForm) : e.signature.render.toList = e.text := by
  have name : (MethodName.ofMember e.member).render.toList = e.member := by
    obtain hplain | ⟨stem, -, hplain, hstem⟩ := e.member_cases
    · rw [MethodName.ofMember_plain hplain, MethodName.render, String.toList_ofList]
    · rw [hstem, MethodName.ofMember_stem hplain]
      simp [MethodName.render]
  rw [Signature.toList_render, signature, String.toList_ofList, name, text]

theorem signature_readable (e : EntryForm) : e.signature.Readable where
  arity := rfl
  owner := by
    refine ⟨by simpa [signature] using e.owner_ne_nil, fun c hc => ?_⟩
    rw [signature, String.toList_ofList] at hc
    rw [List.mem_singleton]
    exact e.owner_plain c hc
  name := by
    obtain ⟨text, htext, hne, hstar, hsub⟩ : ∃ text, (MethodName.ofMember e.member).text = String.ofList text ∧
        text ≠ [] ∧ '*' ∉ text ∧ text ⊆ e.member := by
      obtain hplain | ⟨stem, hne, hplain, hstem⟩ := e.member_cases
      · exact ⟨e.member, by rw [MethodName.ofMember_plain hplain]; rfl, e.member_ne_nil, hplain, List.Subset.refl _⟩
      · refine ⟨stem, by rw [hstem, MethodName.ofMember_stem hplain]; rfl, hne, hplain, ?_⟩
        rw [hstem]
        exact List.subset_append_left _ _
    rw [signature, htext]
    refine ⟨by simpa using hne, fun c hc => ?_⟩
    rw [String.toList_ofList] at hc
    obtain ⟨hblank, hmark⟩ := e.member_plain c (hsub hc)
    refine ⟨hblank, ?_⟩
    rw [List.mem_pair]
    rintro (rfl | rfl)
    · exact hmark rfl
    · exact hstar hc

end EntryForm

/-- the written form of a readable signature is allowed by the grammar -/
theorem Signature.Readable.exists_form {s : Signature} (h : s.Readable) : ∃ e : EntryForm, e.signature = s := by
  obtain ⟨owner, name, arity⟩ := s
  obtain rfl : arity = .any := h.arity
  have ownerPlain : ∀ c ∈ owner.toList, Text.isBlank c = false ∧ c ≠ '#' := fun c hc => by
    simpa using h.owner.2 c hc
  have textPlain : ∀ c ∈ name.text.toList, Text.isBlank c = false ∧ c ≠ '#' := fun c hc => by
    have := h.name.2 c hc
    simp_all
  have noStar : '*' ∉ name.text.toList := fun hc => (h.name.2 _ hc).2 (by simp)
  have ownerText : owner.toList ≠ [] := by simpa using h.owner.1
  have nameText : name.text.toList ≠ [] := by simpa using h.name.1
  cases name with
  | exact text =>
    have plain : '*' ∉ text.toList := noStar
    refine ⟨⟨owner.toList, text.toList, ownerText, ownerPlain, nameText, textPlain, ?_, fun hc => absurd hc plain⟩, ?_⟩
    · rw [List.count_eq_zero.2 plain]
      exact Nat.zero_le 1
    · rw [EntryForm.signature, MethodName.ofMember_plain plain, String.ofList_toList, String.ofList_toList]
  | startsWith stem =>
    have plain : '*' ∉ stem.toList := noStar
    refine ⟨⟨owner.toList, stem.toList ++ ['*'], ownerText, ownerPlain, by simp, ?_, ?_, fun _ => ⟨_, nameText, rfl⟩⟩, ?_⟩
    · intro c hc
      rcases List.mem_append.1 hc with hc | hc
      · exact textPlain c hc
      · obtain rfl := List.mem_singleton.1 hc
        decide
    · have stem : stem.toList.count '*' = 0 := List.count_eq_zero.2 plain
      have star : ['*'].count '*' = 1 := rfl
      rw [List.count_append]
      omega
    · rw [EntryForm.signature, MethodName.ofMember_stem plain, String.ofList_toList, String.ofList_toList]

namespace Signature

/-- a token is read as what a form stands for, when it is that form with blanks around it -/
theorem read_eq_ok_iff_form {token : String} {s : Signature} :
    read token = .ok s ↔ ∃ e : EntryForm, Text.trim token.toList = e.text ∧ e.signature = s := by
  rw [read_eq_ok]
  constructor
  · rintro ⟨hr, hrender⟩
    obtain ⟨e, rfl⟩ := hr.exists_form
    exact ⟨e, by rw [← hrender, e.signature_render], rfl⟩
  · rintro ⟨e, htext, rfl⟩
    exact ⟨e.signature_readable, by rw [htext, e.signature_render]⟩

theorem read_eq_error_iff_no_form {token : String} :
    (∃ reason, read token = .error reason) ↔ ∀ e : EntryForm, Text.trim token.toList ≠ e.text := by
  constructor
  · rintro ⟨reason, herror⟩ e he
    have hok : read token = .ok e.signature := read_eq_ok_iff_form.2 ⟨e, he, rfl⟩
    rw [herror] at hok
    cases hok
  · intro h
    cases hread : read token with
    | error reason => exact ⟨reason, rfl⟩
    | ok s =>
      obtain ⟨e, he, -⟩ := read_eq_ok_iff_form.1 hread
      exact absurd he (h e)

end Signature

/-! ## Tokens -/

/-- What a token comes to: nothing when it is blank, the signature of the form that it is, or its rejection with the text
as it stands. -/
inductive TokenGives (token : String) : EntryList → Prop
  | blank : Text.isBlankText token.toList = true → TokenGives token ⟨[], []⟩
  | entry {e : EntryForm} : Text.trim token.toList = e.text → TokenGives token ⟨[e.signature], []⟩
  | rejected {reason : EntryError} :
    Text.isBlankText token.toList = false → (∀ e : EntryForm, Text.trim token.toList ≠ e.text) →
      Signature.read token = .error reason → TokenGives token ⟨[], [⟨token, reason⟩]⟩

/-- a blank token is no form, since the separator is no blank -/
theorem EntryForm.ne_of_isBlankText (e : EntryForm) {cs : List Char} (h : Text.isBlankText cs = true) :
    Text.trim cs ≠ e.text := by
  intro he
  have mem : '#' ∈ cs := Text.mem_of_mem_trim (by simp [he, text])
  exact absurd (List.all_eq_true.1 h '#' mem) (by decide)

namespace EntryList

/-- the tokens of a list of entries -/
def tokens (spec : String) : List String :=
  Text.splitString ',' spec

theorem ofToken_gives (token : String) : TokenGives token (ofToken token.toList) := by
  rw [ofToken, String.ofList_toList]
  split_ifs with hblank
  · exact .blank hblank
  · rw [Bool.not_eq_true] at hblank
    split
    · rename_i s hs
      obtain ⟨e, he, rfl⟩ := Signature.read_eq_ok_iff_form.1 hs
      exact .entry he
    · rename_i reason hreason
      exact .rejected hblank (Signature.read_eq_error_iff_no_form.1 ⟨reason, hreason⟩) hreason

/-- a token gives the signature that it is read as -/
theorem ofToken_signatures (token : String) :
    (ofToken token.toList).signatures = (Signature.read token).toOption.toList := by
  have gives := ofToken_gives token
  generalize ofToken token.toList = l at gives
  cases gives with
  | blank hblank =>
    obtain ⟨reason, herror⟩ := Signature.read_eq_error_iff_no_form.2 fun e => e.ne_of_isBlankText hblank
    rw [herror]
    rfl
  | @entry e he =>
    rw [Signature.read_eq_ok_iff_form.2 ⟨e, he, rfl⟩]
    rfl
  | rejected _ _ herror =>
    rw [herror]
    rfl

theorem ofTokens_eq (tokens : List (List Char)) :
    ofTokens tokens =
      ⟨tokens.flatMap fun token => (ofToken token).signatures, tokens.flatMap fun token => (ofToken token).rejected⟩ := by
  induction tokens with
  | nil => rfl
  | cons token tokens ih => rw [ofTokens, append, ih, List.flatMap_cons, List.flatMap_cons]

/-- what is read of a list is what its tokens come to, in order -/
theorem read_eq_flatMap (spec : String) :
    read spec =
      ⟨(tokens spec).flatMap fun token => (ofToken token.toList).signatures,
        (tokens spec).flatMap fun token => (ofToken token.toList).rejected⟩ := by
  rw [read, ofTokens_eq, tokens, Text.splitString, List.flatMap_map, List.flatMap_map]
  simp only [String.toList_ofList]

end EntryList

/-- **The grammar of entries.** A token is read as a signature exactly when it is a form that the grammar allows, with
blanks around it, and that signature is what the form stands for; every other token is an error. The catalog of a list of
entries has what those of its tokens that are read give, and only the others are left out. -/
theorem Signature.read_grammar :
    (∀ (token : String) (s : Signature),
      read token = .ok s ↔ ∃ e : EntryForm, Text.trim token.toList = e.text ∧ e.signature = s) ∧
    (∀ token : String, (∃ reason, read token = .error reason) ↔ ∀ e : EntryForm, Text.trim token.toList ≠ e.text) ∧
    ∀ spec : String, (EntryList.read spec).catalog =
      .ofList ((EntryList.tokens spec).filterMap fun token => (read token).toOption) := by
  refine ⟨fun _ _ => read_eq_ok_iff_form, fun _ => read_eq_error_iff_no_form, fun spec => ?_⟩
  rw [EntryList.read_eq_flatMap, EntryList.catalog, List.filterMap_eq_flatMap_toList]
  simp only [EntryList.ofToken_signatures]

namespace EntryList

theorem catalog_append (a b : EntryList) : (a.append b).catalog = a.catalog.union b.catalog := by
  refine Catalog.ext_mem fun s => ?_
  rw [Catalog.mem_union, mem_catalog, mem_catalog, mem_catalog, append, List.mem_append, or_comm]

/-- **Tokens do not depend on each other.** Two lists of entries joined by a comma have the entries of both and the
rejections of the first before those of the second. Each token is blank and gives nothing, or gives one signature, or one
rejection with the token as it is written; a list gives what its tokens give, in their order. Tokens in another order give
the same catalog and the same rejections in that order. -/
theorem read_tokenwise :
    (∀ a b : String, (read (a ++ "," ++ b)).catalog = (read a).catalog.union (read b).catalog ∧
      (read (a ++ "," ++ b)).rejected = (read a).rejected ++ (read b).rejected) ∧
    (∀ token : String, TokenGives token (ofToken token.toList)) ∧
    (∀ spec : String,
      (read spec).catalog = .ofList ((tokens spec).flatMap fun token => (ofToken token.toList).signatures) ∧
      (read spec).rejected = (tokens spec).flatMap fun token => (ofToken token.toList).rejected) ∧
    ∀ a b : String, (tokens a).Perm (tokens b) →
      (read a).catalog = (read b).catalog ∧ (read a).rejected.Perm (read b).rejected := by
  refine ⟨fun a b => ?_, ofToken_gives, fun spec => ?_, fun a b h => ⟨?_, ?_⟩⟩
  · rw [read_append_comma]
    exact ⟨catalog_append _ _, rfl⟩
  · rw [read_eq_flatMap]
    exact ⟨rfl, rfl⟩
  · refine Catalog.ext_mem fun s => ?_
    rw [mem_catalog, mem_catalog, read_eq_flatMap a, read_eq_flatMap b]
    exact (h.flatMap_right _).mem_iff
  · rw [read_eq_flatMap a, read_eq_flatMap b]
    exact h.flatMap_right _

/-- a list with an entry twice, a blank token and a rejected one, and the same tokens in another order -/
theorem read_tokenwise_reordered :
    (tokens "p.A#go*, B #b,,p.A#go*").Perm (tokens ", B #b,p.A#go*,p.A#go*") ∧
      (read "p.A#go*, B #b,,p.A#go*").catalog = (read ", B #b,p.A#go*,p.A#go*").catalog ∧
      (read "p.A#go*, B #b,,p.A#go*").rejected.Perm (read ", B #b,p.A#go*,p.A#go*").rejected := by
  have reordered : (tokens "p.A#go*, B #b,,p.A#go*").Perm (tokens ", B #b,p.A#go*,p.A#go*") := by decide +kernel
  exact ⟨reordered, read_tokenwise.2.2.2 _ _ reordered⟩

end EntryList

end CallLint
