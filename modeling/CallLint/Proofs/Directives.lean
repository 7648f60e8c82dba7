/-
Directives are read as they are written. A `WrittenDirective` is a line with a comment that holds a directive;
`Documented` says which texts its parts may be, and `suppression?` what the line asks for.

`ofText_documented`: every line of a file is read on its own, but for the question whether the lines up to it are all
header lines, and the suppressions stand in the order of the lines. A line with a documented directive yields what the
directive asks for, provided that a block comment's key does not itself read as the opening of a line comment's
directive (`OpensNone`).

`lineForm_inside_key`: that proviso is needed. The line form is looked for on the whole line before the block form is,
so that a key which ends in `//callmatch:ignore` makes the comment's end the key of another directive.
-/
import CallLint.Suppression.Basic
import CallLint.Proofs.Entries
import Mathlib.Data.List.Infix
import Mathlib.Data.List.ReduceOption
import Mathlib.Data.List.TakeWhile

namespace CallLint

/-! ## Written directives -/

/-- the word of a directive after `callmatch:` -/
def DirectiveKind.word : DirectiveKind → List Char
  | .ignore => "ignore".toList
  | .ignoreNextLine => "ignore-next-line".toList
  | .ignoreFile => "ignore-file".toList

/-- what every directive starts with, after the opening of its comment -/
def Directive.mark : List Char := "callmatch:".toList

inductive CommentForm where
  | line
  /-- a block comment with what follows its end on the line -/
  | block (after : List Char)
deriving DecidableEq, Repr

/-- a line with a directive in its comment -/
structure WrittenDirective where
  before : List Char
  form : CommentForm
  kind : DirectiveKind
  key : List Char
  reason : Option (List Char)
deriving DecidableEq, Repr

namespace WrittenDirective

variable (w : WrittenDirective)

/-- the second character of the comment's opening -/
def opener : Char :=
  match w.form with
  | .line => '/'
  | .block _ => '*'

def written : Option (List Char) → List Char
  | some reason => " - ".toList ++ reason
  | none => []

/-- what follows the key and the reason -/
def closing : List Char :=
  match w.form with
  | .line => []
  | .block after => " */".toList ++ after

/-- what follows the key -/
def tail : List Char :=
  written w.reason ++ w.closing

/-- the whole line -/
def text : List Char :=
  w.before ++ '/' :: w.opener :: ' ' :: (Directive.mark ++ (w.kind.word ++ ' ' :: (w.key ++ w.tail)))

/-- the texts a directive's parts may be -/
structure Documented : Prop where
  before : ¬ Directive.mark <:+: w.before
  key : w.key ≠ []
  wordless : ∀ c ∈ w.key, Text.isBlank c = false
  /-- a block comment ends where its directive does, and nothing follows it -/
  block : ∀ after, w.form = .block after → Text.isBlankText after = true ∧ ¬ ['*', '/'] <:+: w.key ∧
    ∀ reason, w.reason = some reason → ¬ ['*', '/'] <:+: reason ∧ ¬ Directive.mark <:+: reason

/-- What it takes to read the directive, whatever stands after a block comment: no other directive is marked before it,
its key is a word, and what follows the key of a block comment holds neither a mark nor a further end of the comment. -/
structure Legible : Prop where
  before : ¬ Directive.mark <:+: w.before
  key : w.key ≠ []
  wordless : ∀ c ∈ w.key, Text.isBlank c = false
  block : ∀ after, w.form = .block after →
    ¬ Directive.mark <:+: w.tail ∧ ∀ reason, w.reason = some reason → ¬ ['*', '/'] <:+: reason

/-- the key of a block comment does not end like the opening of a directive in a line comment -/
def OpensNone : Prop :=
  ∀ after, w.form = .block after → ∀ kind : DirectiveKind, ¬ '/' :: '/' :: (Directive.mark ++ kind.word) <:+ w.key

/-- what the directive says, on its own -/
def directive : Directive :=
  ⟨w.kind, String.ofList w.key, String.ofList (Text.trim (w.reason.getD []))⟩

/-- what the directive asks for on a line of that number, when all lines up to it are header lines or are not -/
def suppression? (file : String) (number : Nat) (inHeader : Bool) : Option Suppression :=
  let covering (line : Nat) (scope : SuppressionScope) : Suppression :=
    ⟨w.directive.rule, w.directive.reason, file, line, scope⟩
  match w.kind with
  | .ignoreNextLine => some (covering number .nextLine)
  | .ignore => some (covering number (if Text.isBlankText w.before then .nextLine else .line))
  | .ignoreFile => if inHeader ∨ number ≤ 10 then some (covering 0 .file) else none

end WrittenDirective

/-! ## Text -/

namespace Text

theorem trimStart_of_not_blank {c : Char} {cs : List Char} (h : isBlank c = false) : trimStart (c :: cs) = c :: cs :=
  List.dropWhile_cons_of_neg (by simp [h])

theorem trimStart_cons_blank {c : Char} {cs : List Char} (h : isBlank c = true) : trimStart (c :: cs) = trimStart cs :=
  List.dropWhile_cons_of_pos h

theorem trim_cons_blank {c : Char} {cs : List Char} (h : isBlank c = true) : trim (c :: cs) = trim cs := by
  rw [trim, trimStart_cons_blank h, trim]

theorem trim_append_blank {cs : List Char} {c : Char} (h : isBlank c = true) : trim (cs ++ [c]) = trim cs := by
  unfold trim trimStart
  rw [List.dropWhile_append]
  split
  · rename_i hall
    rw [List.isEmpty_iff.1 hall, List.dropWhile_cons_of_pos h, List.dropWhile_nil]
  · exact trimEnd_append (List.forall_mem_singleton.2 h) _

/-- what is left after the leading blanks, and the blanks -/
theorem trimStart_eq (cs : List Char) : ∃ blanks, (∀ c ∈ blanks, isBlank c = true) ∧ cs = blanks ++ trimStart cs :=
  ⟨cs.takeWhile isBlank, fun _ hc => List.mem_takeWhile_imp hc, List.takeWhile_append_dropWhile.symm⟩

/-- no blanks in a text whose characters are checked one by one -/
theorem not_blank_of_all {cs : List Char} (h : cs.all (fun c => !isBlank c) = true) : ∀ c ∈ cs, isBlank c = false :=
  fun c hc => by simpa using List.all_eq_true.1 h c hc

end Text

/-! ## Words in a text cut at a character that they do not hold -/

section Cut

variable {α : Type} {c : α} {p as bs cs : List α}

/-- a front without the character ends before its first occurrence -/
theorem prefix_of_append_eq (hc : c ∉ p) (h : p ++ cs = as ++ c :: bs) : p <+: as := by
  obtain ⟨t, rfl, -⟩ | ⟨t, rfl, ht⟩ := List.append_eq_append_iff.1 h
  · exact List.prefix_append p t
  · cases t with
    | nil => exact (List.append_nil as).symm ▸ List.prefix_rfl
    | cons x t => obtain ⟨rfl, -⟩ := List.cons.inj ht; simp at hc

/-- a word that does not hold the character stands on one side of it -/
theorem infix_append_cons (hc : c ∉ p) (h : p <:+: as ++ c :: bs) : p <:+: as ∨ p <:+: bs := by
  obtain ⟨s, t, h⟩ := h
  rw [List.append_assoc] at h
  obtain ⟨u, hu, ht⟩ | ⟨u, rfl, hu⟩ := List.append_eq_append_iff.1 h
  · exact .inl (hu ▸ (prefix_of_append_eq hc ht).isInfix.trans (List.suffix_append s u).isInfix)
  · cases u with
    | nil =>
      have front : p <+: [] := prefix_of_append_eq hc hu.symm
      exact .inl (front.isInfix.trans List.nil_infix)
    | cons x u =>
      obtain ⟨-, rfl⟩ := List.cons.inj hu
      exact .inr ⟨u, t, List.append_assoc u p t⟩

theorem infix_of_infix_cons (hp : p ≠ []) (hc : c ∉ p) (h : p <:+: c :: bs) : p <:+: bs := by
  have sides : p <:+: [] ∨ p <:+: bs := infix_append_cons hc h
  exact sides.resolve_left fun hnil => hp (List.infix_nil.1 hnil)

end Cut

namespace Directive

/-! ## The opening of a directive -/

theorem blank_not_mem_mark : ∀ c ∈ mark, Text.isBlank c = false :=
  Text.not_blank_of_all (by decide)

theorem blank_not_mem_word (kind : DirectiveKind) : ∀ c ∈ kind.word, Text.isBlank c = false :=
  Text.not_blank_of_all (by cases kind <;> decide)

theorem slash_not_mem_mark : '/' ∉ mark := by
  decide

theorem takeWhile_wordless {cs rest : List Char} {c : Char} (h : ∀ c ∈ cs, Text.isBlank c = false)
    (hc : Text.isBlank c = true) : (cs ++ c :: rest).takeWhile isWordless = cs := by
  rw [List.takeWhile_append_of_pos fun c hc => by simp [isWordless, h c hc],
    List.takeWhile_cons_of_neg (by simp [isWordless, hc]), List.append_nil]

theorem dropLeading_opening (x : Char) (cs : List Char) : Text.dropLeading ['/', x] ('/' :: x :: cs) = some cs :=
  Text.dropLeading_eq_some.2 rfl

/-- A directive's kind is read off blanks, the mark, the word of the kind and a blank. -/
theorem readKind?_eq_some {cs body : List Char} {kind : DirectiveKind} (h : readKind? cs = some (kind, body)) :
    ∃ blanks c rest, (∀ b ∈ blanks, Text.isBlank b = true) ∧ Text.isBlank c = true ∧
      cs = blanks ++ (mark ++ (kind.word ++ c :: rest)) := by
  unfold readKind? at h
  obtain ⟨after, hafter, h⟩ := Option.bind_eq_some_iff.1 h
  obtain ⟨⟨word, kind'⟩, hmem, h⟩ := List.exists_of_findSome?_eq_some h
  obtain ⟨blanks, hblanks, hcs⟩ := Text.trimStart_eq cs
  rw [Text.dropLeading_eq_some.1 hafter] at hcs
  dsimp only at h
  split at h
  · rename_i c rest hrest
    split at h
    · rename_i hc
      obtain ⟨rfl, -⟩ := Prod.mk.inj (Option.some.inj h)
      refine ⟨blanks, c, rest, hblanks, hc, ?_⟩
      rw [hcs, Text.dropLeading_eq_some.1 hrest]
      have : word.toList = kind'.word := by
        simp only [List.mem_cons, Prod.mk.injEq, List.not_mem_nil, or_false] at hmem
        obtain ⟨rfl, rfl⟩ | ⟨rfl, rfl⟩ | ⟨rfl, rfl⟩ := hmem <;> rfl
      rw [this]
      rfl
    · cases h
  · cases h

/-- The kind of a written directive is the one that is read. -/
theorem readKind?_written (kind : DirectiveKind) (body : List Char) :
    readKind? (' ' :: (mark ++ (kind.word ++ ' ' :: body))) = some (kind, Text.trimStart body) := by
  have start : Text.trimStart (' ' :: (mark ++ (kind.word ++ ' ' :: body))) = mark ++ (kind.word ++ ' ' :: body) := rfl
  rw [readKind?, start, show Text.dropLeading "callmatch:".toList (mark ++ (kind.word ++ ' ' :: body)) = some _ from
    Text.dropLeading_eq_some.2 rfl, Option.bind_some]
  cases kind <;> rfl

/-- A line comment's directive starts with two slashes. -/
theorem readLine?_eq_some {cs : List Char} {d : Directive} (h : readLine? cs = some d) :
    ∃ blanks c rest, (∀ b ∈ blanks, Text.isBlank b = true) ∧ Text.isBlank c = true ∧
      cs = '/' :: '/' :: (blanks ++ (mark ++ (d.kind.word ++ c :: rest))) := by
  unfold readLine? at h
  split at h
  · cases h
  rename_i after hafter
  split at h
  · cases h
  rename_i kind body hkind
  obtain ⟨blanks, c, rest, hblanks, hc, rfl⟩ := readKind?_eq_some hkind
  dsimp only at h
  split at h
  · cases h
  obtain rfl := Option.some.inj h
  exact ⟨blanks, c, rest, hblanks, hc, Text.dropLeading_eq_some.1 hafter⟩

/-- A block comment's directive starts with a slash and a star. -/
theorem readBlock?_eq_some {cs : List Char} {d : Directive} (h : readBlock? cs = some d) :
    ∃ blanks rest, (∀ b ∈ blanks, Text.isBlank b = true) ∧ cs = '/' :: '*' :: (blanks ++ (mark ++ rest)) := by
  unfold readBlock? at h
  split at h
  · cases h
  rename_i after hafter
  split at h
  · cases h
  rename_i kind body hkind
  obtain ⟨blanks, c, rest, hblanks, -, rfl⟩ := readKind?_eq_some hkind
  exact ⟨blanks, _, hblanks, Text.dropLeading_eq_some.1 hafter⟩

/-! ## The first place -/

section First

variable {read : List Char → Option Directive}

theorem first?_nil (alone : Bool) : first? read alone [] = (read []).map fun d => ⟨alone, d⟩ :=
  rfl

theorem first?_cons (alone : Bool) (c : Char) (cs : List Char) :
    first? read alone (c :: cs) =
      match read (c :: cs) with
      | some d => some ⟨alone, d⟩
      | none => first? read (alone && Text.isBlank c) cs :=
  rfl

theorem first?_eq_none {cs : List Char} (alone : Bool) (h : ∀ suf, suf <:+ cs → read suf = none) :
    first? read alone cs = none := by
  induction cs generalizing alone with
  | nil => rw [first?_nil, h [] List.suffix_rfl, Option.map_none]
  | cons c cs ih =>
    rw [first?_cons, h (c :: cs) List.suffix_rfl]
    exact ih _ fun suf hsuf => h suf (hsuf.trans (List.suffix_cons c cs))

/-- Places at which nothing is read are passed over. -/
theorem first?_append {before cs : List Char} (alone : Bool)
    (h : ∀ suf, suf <:+ before → suf ≠ [] → read (suf ++ cs) = none) :
    first? read alone (before ++ cs) = first? read (alone && Text.isBlankText before) cs := by
  induction before generalizing alone with
  | nil => simp [Text.isBlankText]
  | cons c before ih =>
    rw [List.cons_append, first?_cons, ← List.cons_append, h _ List.suffix_rfl (List.cons_ne_nil c before)]
    dsimp only
    rw [ih _ fun suf hsuf => h suf (hsuf.trans (List.suffix_cons c before))]
    simp [Text.isBlankText, Bool.and_assoc]

theorem first?_of_read {cs : List Char} {d : Directive} (alone : Bool) (h : read cs = some d) :
    first? read alone cs = some ⟨alone, d⟩ := by
  cases cs with
  | nil => rw [first?_nil, h, Option.map_some]
  | cons c cs => rw [first?_cons, h]

end First

/-- Text before a comment that does not hold the mark does not open a directive that reaches into the comment. -/
theorem not_opened_before {before suf blanks rest cs : List Char} {x y : Char} (hbefore : ¬ mark <:+: before)
    (hsuf : suf <:+ before) (hne : suf ≠ []) (hy : y = '/' ∨ y = '*') (hblanks : ∀ b ∈ blanks, Text.isBlank b = true) :
    suf ++ '/' :: y :: cs ≠ '/' :: x :: (blanks ++ (mark ++ rest)) := by
  intro h
  have hslash : '/' ∉ blanks := fun hmem => absurd (hblanks _ hmem) (by decide)
  have hplain : Text.isBlank y = false ∧ y ≠ 'c' := by rcases hy with rfl | rfl <;> decide
  match suf, hne with
  | [s], _ =>
    obtain ⟨-, -, h⟩ := by simpa using h
    cases blanks with
    | nil => exact hplain.2 (List.cons.inj h).1
    | cons b blanks =>
      obtain ⟨rfl, -⟩ := List.cons.inj h
      exact absurd (hblanks y List.mem_cons_self) (by simp [hplain.1])
  | s :: s' :: suf, _ =>
    obtain ⟨-, -, h⟩ := by simpa using h
    have hfront : blanks ++ mark <+: suf :=
      prefix_of_append_eq (by simp [hslash, slash_not_mem_mark]) ((List.append_assoc _ _ _).trans h.symm)
    refine hbefore ?_
    calc mark <:+: blanks ++ mark := (List.suffix_append blanks mark).isInfix
      _ <:+: suf := hfront.isInfix
      _ <:+: s :: s' :: suf := (List.suffix_append [s, s'] suf).isInfix
      _ <:+: before := hsuf.isInfix

theorem readLine?_before {before suf cs : List Char} {y : Char} (hbefore : ¬ mark <:+: before) (hsuf : suf <:+ before)
    (hne : suf ≠ []) (hy : y = '/' ∨ y = '*') : readLine? (suf ++ '/' :: y :: cs) = none := by
  rw [Option.eq_none_iff_forall_ne_some]
  intro d hd
  obtain ⟨blanks, c, rest, hblanks, -, h⟩ := readLine?_eq_some hd
  exact not_opened_before hbefore hsuf hne hy hblanks h

theorem readBlock?_before {before suf cs : List Char} {y : Char} (hbefore : ¬ mark <:+: before) (hsuf : suf <:+ before)
    (hne : suf ≠ []) (hy : y = '/' ∨ y = '*') : readBlock? (suf ++ '/' :: y :: cs) = none := by
  rw [Option.eq_none_iff_forall_ne_some]
  intro d hd
  obtain ⟨blanks, rest, hblanks, h⟩ := readBlock?_eq_some hd
  exact not_opened_before hbefore hsuf hne hy hblanks h

/-! ## The place of a written directive -/

/-- A comment's text ends at the first star and slash. -/
theorem beforeClose?_append {cs : List Char} (h : ¬ ['*', '/'] <:+: cs) (after : List Char) :
    beforeClose? (cs ++ '*' :: '/' :: after) = some cs := by
  induction cs with
  | nil => rfl
  | cons c cs ih =>
    have hc : ¬ ['*', '/'].isPrefixOf (c :: (cs ++ '*' :: '/' :: after)) = true := by
      rw [List.isPrefixOf_iff_prefix]
      rintro ⟨rest, hstarts⟩
      obtain ⟨rfl, hrest⟩ := List.cons.inj hstarts
      cases cs with
      | nil => exact absurd (List.cons.inj hrest).1 (by decide)
      | cons c cs =>
        obtain ⟨rfl, -⟩ := List.cons.inj hrest
        exact h (List.prefix_append ['*', '/'] cs).isInfix
    rw [List.cons_append, beforeClose?, if_neg hc, ih fun hcs => h (hcs.trans (List.suffix_cons c cs).isInfix),
      Option.map_some]

end Directive

namespace WrittenDirective

open Directive

variable {w : WrittenDirective}

theorem tail_line (h : w.form = .line) : w.tail = written w.reason := by
  rw [tail, closing, h, List.append_nil]

theorem tail_block {after : List Char} (h : w.form = .block after) :
    w.tail = written w.reason ++ (" */".toList ++ after) := by
  rw [tail, closing, h]

theorem text_eq {c : Char} (h : w.opener = c) :
    w.text = w.before ++ '/' :: c :: ' ' :: (mark ++ (w.kind.word ++ ' ' :: (w.key ++ w.tail))) :=
  h ▸ rfl

theorem opener_line (h : w.form = .line) : w.opener = '/' := by
  rw [opener, h]

theorem opener_block {after : List Char} (h : w.form = .block after) : w.opener = '*' := by
  rw [opener, h]

theorem tail_cases (w : WrittenDirective) : w.tail = [] ∨ ∃ rest, w.tail = ' ' :: rest := by
  rcases w with ⟨before, form, kind, key, reason⟩
  cases reason <;> cases form <;> simp [tail, written, closing]

theorem takeWhile_key (hw : w.Legible) : (w.key ++ w.tail).takeWhile isWordless = w.key := by
  obtain h | ⟨rest, h⟩ := w.tail_cases
  · rw [h, List.append_nil, List.takeWhile_eq_self_iff]
    exact fun c hc => by simp [isWordless, hw.wordless c hc]
  · rw [h, takeWhile_wordless hw.wordless (by decide)]

theorem trimStart_key (hw : w.Legible) (cs : List Char) : Text.trimStart (w.key ++ cs) = w.key ++ cs := by
  obtain ⟨c, rest, hkey⟩ := List.exists_cons_of_ne_nil hw.key
  rw [hkey]
  exact Text.trimStart_of_not_blank (hw.wordless c (by simp [hkey]))

theorem lineReason_tail (hline : w.form = .line) : lineReason w.tail = Text.trim (w.reason.getD []) := by
  rw [tail_line hline]
  cases w.reason with
  | none => rfl
  | some reason => exact Text.trim_cons_blank (by decide)

theorem blockReason?_tail (hw : w.Legible) {after : List Char} (hblock : w.form = .block after) :
    blockReason? w.tail = some (Text.trim (w.reason.getD [])) := by
  rw [tail_block hblock]
  cases hreason : w.reason with
  | none => rfl
  | some reason =>
    have hclose : ¬ ['*', '/'] <:+: ' ' :: (reason ++ [' ']) := by
      intro h
      rcases infix_append_cons (by decide) (infix_of_infix_cons (by decide) (by decide) h) with h | h
      · exact (hw.block after hblock).2 reason hreason h
      · exact absurd (List.infix_nil.1 h) (by decide)
    have hstart : Text.trimStart (written (some reason) ++ (" */".toList ++ after)) =
        '-' :: ' ' :: (reason ++ [' ']) ++ '*' :: '/' :: after := by
      simp [written, Text.trimStart, Text.isBlank]
    simp only [blockReason?, hstart, List.cons_append]
    rw [← List.cons_append, beforeClose?_append hclose, Option.map_some, Text.trim_cons_blank (by decide),
      Text.trim_append_blank (by decide), Option.getD_some]

/-- In a line comment the directive is read where it is written. -/
theorem readLine?_written (hw : w.Legible) (hline : w.form = .line) :
    readLine? ('/' :: '/' :: ' ' :: (mark ++ (w.kind.word ++ ' ' :: (w.key ++ w.tail)))) = some w.directive := by
  have hkey : w.key.isEmpty = false := by simp [hw.key]
  simp only [readLine?, dropLeading_opening, readKind?_written, trimStart_key hw, takeWhile_key hw, hkey,
    List.drop_left, lineReason_tail hline]
  rfl

/-- In a block comment the directive is read where it is written, with its whole key. -/
theorem readBlock?_written (hw : w.Legible) {after : List Char} (hblock : w.form = .block after) :
    readBlock? ('/' :: '*' :: ' ' :: (mark ++ (w.kind.word ++ ' ' :: (w.key ++ w.tail)))) = some w.directive := by
  have hkey : blockKey? (w.key ++ w.tail) w.key.length = some (w.key, Text.trim (w.reason.getD [])) := by
    obtain ⟨n, hn⟩ := Nat.exists_eq_add_one_of_ne_zero (mt List.length_eq_zero_iff.1 hw.key)
    rw [hn, blockKey?, ← hn, List.drop_left, blockReason?_tail hw hblock, List.take_left]
  simp only [readBlock?, dropLeading_opening, readKind?_written, trimStart_key hw, takeWhile_key hw, hkey]
  rfl

/-! ## No directive of a line comment in a block comment -/

/-- The front of a block comment has no two slashes in a row. -/
theorem readLine?_front {suf cs : List Char} (kind : DirectiveKind)
    (hsuf : suf <:+ '/' :: '*' :: ' ' :: (mark ++ (kind.word ++ [' ']))) (hne : suf ≠ []) :
    readLine? (suf ++ cs) = none := by
  rw [Option.eq_none_iff_forall_ne_some]
  intro d hd
  obtain ⟨blanks, c, rest, -, -, h⟩ := readLine?_eq_some hd
  rcases List.suffix_cons_iff.1 hsuf with rfl | hsuf
  · exact absurd (List.cons.inj (List.cons.inj h).2).1 (by decide)
  · obtain ⟨s, suf, rfl⟩ := List.exists_cons_of_ne_nil hne
    have hs : s = '/' := (List.cons.inj h).1
    have hmem : '/' ∈ '*' :: ' ' :: (mark ++ (kind.word ++ [' '])) := hsuf.subset (hs ▸ List.mem_cons_self)
    exact absurd hmem (by cases kind <;> decide)

/-- Within the key of a block comment a line comment's directive opens only if the rest of the key is its opening. -/
theorem readLine?_key (hw : w.Legible) (hnone : w.OpensNone) {after : List Char} (hblock : w.form = .block after)
    {suf : List Char} (hsuf : suf <:+ w.key) : readLine? (suf ++ w.tail) = none := by
  rw [Option.eq_none_iff_forall_ne_some]
  intro d hd
  obtain ⟨blanks, c, rest, hblanks, hc, h⟩ := readLine?_eq_some hd
  obtain ⟨rest', htail⟩ : ∃ rest', w.tail = ' ' :: rest' := by
    rw [tail_block hblock]
    cases w.reason <;> exact ⟨_, rfl⟩
  have hword : (suf ++ w.tail).takeWhile isWordless = suf := by
    rw [htail]
    exact takeWhile_wordless (fun c hc => hw.wordless c (hsuf.subset hc)) (by decide)
  cases blanks with
  | nil =>
    -- the opening reaches to the end of the key
    have hopening : suf = '/' :: '/' :: (mark ++ d.kind.word) := by
      rw [← hword, h, List.nil_append, ← List.append_assoc, ← List.cons_append, ← List.cons_append]
      refine takeWhile_wordless (fun x hx => ?_) hc
      simp only [List.mem_cons, List.mem_append] at hx
      obtain rfl | rfl | hx | hx := hx
      · decide
      · decide
      · exact blank_not_mem_mark x hx
      · exact blank_not_mem_word d.kind x hx
    exact hnone after hblock d.kind (hopening ▸ hsuf)
  | cons b blanks =>
    -- the key ends in the two slashes, so that the mark would stand behind it
    have hslashes : suf = ['/', '/'] := by
      have slashes : ∀ x ∈ ['/', '/'], Text.isBlank x = false := Text.not_blank_of_all (by decide)
      rw [← hword, h]
      exact takeWhile_wordless slashes (hblanks b List.mem_cons_self)
    rw [hslashes] at h
    have htail : w.tail = b :: blanks ++ (mark ++ (d.kind.word ++ c :: rest)) :=
      (List.cons.inj (List.cons.inj h).2).2
    exact (hw.block after hblock).1 (htail ▸ ⟨b :: blanks, d.kind.word ++ c :: rest, by simp⟩)

theorem readLine?_tail (hw : w.Legible) {after : List Char} (hblock : w.form = .block after) {suf : List Char}
    (hsuf : suf <:+ w.tail) : readLine? suf = none := by
  rw [Option.eq_none_iff_forall_ne_some]
  intro d hd
  obtain ⟨blanks, c, rest, -, -, rfl⟩ := readLine?_eq_some hd
  refine (hw.block after hblock).1 (List.IsInfix.trans ?_ hsuf.isInfix)
  exact ⟨'/' :: '/' :: blanks, d.kind.word ++ c :: rest, by simp⟩

/-- On a whole line with a block comment no directive of a line comment is found. -/
theorem first?_readLine?_block (hw : w.Legible) (hnone : w.OpensNone) {after : List Char}
    (hblock : w.form = .block after) : first? readLine? true w.text = none := by
  have hfront : '/' :: '*' :: ' ' :: (mark ++ (w.kind.word ++ ' ' :: (w.key ++ w.tail))) =
      '/' :: '*' :: ' ' :: (mark ++ (w.kind.word ++ [' '])) ++ (w.key ++ w.tail) := by simp
  rw [text_eq (opener_block hblock), first?_append, hfront, first?_append, first?_append]
  · exact first?_eq_none _ fun suf hsuf => readLine?_tail hw hblock hsuf
  · exact fun suf hsuf _ => readLine?_key hw hnone hblock hsuf
  · exact fun suf hsuf hne => readLine?_front w.kind hsuf hne
  · exact fun suf hsuf hne => readLine?_before hw.before hsuf hne (.inr rfl)

/-- A legible directive is the directive of its line. -/
theorem ofLine?_text (hw : w.Legible) (hnone : w.OpensNone) :
    Directive.ofLine? w.text = some ⟨Text.isBlankText w.before, w.directive⟩ := by
  cases hform : w.form with
  | line =>
    rw [Directive.ofLine?, text_eq (opener_line hform), first?_append, first?_of_read _ (readLine?_written hw hform),
      Option.some_or, Bool.true_and]
    exact fun suf hsuf hne => readLine?_before hw.before hsuf hne (.inl rfl)
  | block after =>
    rw [Directive.ofLine?, first?_readLine?_block hw hnone hform, Option.none_or, text_eq (opener_block hform),
      first?_append, first?_of_read _ (readBlock?_written hw hform), Bool.true_and]
    exact fun suf hsuf hne => readBlock?_before hw.before hsuf hne (.inr rfl)

/-! ## Documented directives are legible -/

/-- What follows the key of a documented block comment does not hold the mark. -/
theorem mark_not_infix_tail (hw : w.Documented) {after : List Char} (hblock : w.form = .block after) :
    ¬ mark <:+: w.tail := by
  obtain ⟨hafter, -, hreason⟩ := hw.block after hblock
  have hmark : mark ≠ [] := by decide
  have hclosing : ¬ mark <:+: ' ' :: '*' :: '/' :: after := by
    intro h
    have h := infix_of_infix_cons hmark (by decide) h
    have h := infix_of_infix_cons hmark (by decide) h
    have h := infix_of_infix_cons hmark (by decide) h
    have hc : 'c' ∈ after := h.subset (by decide)
    exact absurd (List.all_eq_true.1 hafter 'c' hc) (by decide)
  rw [tail_block hblock]
  cases hr : w.reason with
  | none => exact hclosing
  | some reason =>
    show ¬ mark <:+: ' ' :: '-' :: ' ' :: (reason ++ ' ' :: '*' :: '/' :: after)
    intro h
    have h := infix_of_infix_cons hmark (by decide) h
    have h := infix_of_infix_cons hmark (by decide) h
    have h := infix_of_infix_cons hmark (by decide) h
    rcases infix_append_cons (by decide) h with h | h
    · exact (hreason reason hr).2 h
    · exact hclosing (h.trans (List.suffix_cons ' ' _).isInfix)

theorem Documented.legible (hw : w.Documented) : w.Legible where
  before := hw.before
  key := hw.key
  wordless := hw.wordless
  block after hblock :=
    ⟨mark_not_infix_tail hw hblock, fun reason hreason => ((hw.block after hblock).2.2 reason hreason).1⟩

end WrittenDirective

/-! ## The lines of a file -/

namespace Suppression

/-- whether all lines up to that of the index are header lines -/
def headerThrough (lines : List (List Char)) (i : Nat) : Bool :=
  (lines.take (i + 1)).all isHeaderLine

/-- what each line yields; of the other lines, only the question whether they are header lines counts -/
def lineYields (file : String) (lines : List (List Char)) : List (Option Suppression) :=
  lines.mapIdx fun i line => ofLine? file (i + 1) (headerThrough lines i) line

theorem ofLines_eq (file : String) (lines : List (List Char)) (number : Nat) (inHeader : Bool) :
    ofLines file number inHeader lines =
      (lines.mapIdx fun i line => ofLine? file (number + i) (inHeader && headerThrough lines i) line).reduceOption := by
  induction lines generalizing number inHeader with
  | nil => rfl
  | cons line lines ih =>
    have hrest : ofLines file (number + 1) (inHeader && isHeaderLine line) lines =
        (lines.mapIdx fun i next =>
          ofLine? file (number + (i + 1)) (inHeader && headerThrough (line :: lines) (i + 1)) next).reduceOption := by
      rw [ih]
      simp only [headerThrough, List.take_succ_cons, List.all_cons, Bool.and_assoc, Nat.add_assoc, Nat.add_comm 1]
    have hfirst : headerThrough (line :: lines) 0 = isHeaderLine line := by simp [headerThrough]
    rw [ofLines, List.mapIdx_cons, hrest, hfirst, Nat.add_zero]
    cases ofLine? file number (inHeader && isHeaderLine line) line <;> rfl

/-- The suppressions of a file are what its lines yield, in their order. -/
theorem ofText_eq (file content : String) :
    ofText file content = (lineYields file (Text.lines content.toList)).reduceOption := by
  rw [ofText, ofLines_eq, lineYields]
  simp only [Bool.true_and, Nat.add_comm 1]

theorem ofLine?_text {w : WrittenDirective} (hw : w.Documented) (hnone : w.OpensNone) (file : String) (number : Nat)
    (inHeader : Bool) : ofLine? file number inHeader w.text = w.suppression? file number inHeader := by
  rw [ofLine?, WrittenDirective.ofLine?_text hw.legible hnone]
  have hwindow : (inHeader || decide (number ≤ fileDirectiveLines)) = true ↔ inHeader = true ∨ number ≤ 10 := by
    rw [Bool.or_eq_true, decide_eq_true_eq, fileDirectiveLines]
  cases hkind : w.kind <;>
    simp [ofDirective?, WrittenDirective.suppression?, WrittenDirective.directive, hkind, hwindow]

/-- **Documented directives are recognised as written.** The suppressions of a file are what its lines yield, in their
order, and a line with a documented directive yields what the directive asks for. -/
theorem ofText_documented (file content : String) :
    let lines := Text.lines content.toList
    ofText file content = (lineYields file lines).reduceOption ∧
      ∀ (w : WrittenDirective) (i : Nat), w.Documented → w.OpensNone → lines[i]? = some w.text →
        (lineYields file lines)[i]? = some (w.suppression? file (i + 1) (headerThrough lines i)) := by
  refine ⟨ofText_eq file content, fun w i hw hnone hline => ?_⟩
  rw [lineYields, List.getElem?_mapIdx, hline, Option.map_some, ofLine?_text hw hnone]

/-- a comment after code, with a hyphen in its reason -/
theorem ofText_documented_afterCode :
    let content := "package p;\nrun(); /* callmatch:ignore S1523/ - the - old way */ "
    let w : WrittenDirective :=
      ⟨"run(); ".toList, .block [' '], .ignore, "S1523/".toList, some "the - old way".toList⟩
    w.Documented ∧ w.OpensNone ∧ (Text.lines content.toList)[1]? = some w.text ∧
      (lineYields "T.java" (Text.lines content.toList))[1]? =
        some (some ⟨"S1523/", "the - old way", "T.java", 2, .line⟩) := by
  intro content w
  have hw : w.Documented := by
    refine ⟨by decide, by decide, Text.not_blank_of_all (by decide), ?_⟩
    rintro _ ⟨⟩
    refine ⟨by decide, by decide, ?_⟩
    rintro _ ⟨⟩
    exact ⟨by decide, by decide⟩
  have hnone : w.OpensNone := by
    rintro _ - kind
    cases kind <;> decide
  have hline : (Text.lines content.toList)[1]? = some w.text := by decide
  refine ⟨hw, hnone, hline, ((ofText_documented "T.java" content).2 w 1 hw hnone hline).trans ?_⟩
  decide

/-- A key that ends like the opening of a line comment's directive is not read: the comment's end becomes the key. -/
theorem lineForm_inside_key :
    ¬ ∀ (file content : String) (w : WrittenDirective) (i : Nat), w.Documented →
      (Text.lines content.toList)[i]? = some w.text →
        (lineYields file (Text.lines content.toList))[i]? =
          some (w.suppression? file (i + 1) (headerThrough (Text.lines content.toList) i)) := by
  intro h
  let w : WrittenDirective := ⟨[], .block [], .ignore, "S1523//callmatch:ignore".toList, none⟩
  have hw : w.Documented := by
    refine ⟨by decide, by decide, Text.not_blank_of_all (by decide), ?_⟩
    rintro _ ⟨⟩
    exact ⟨rfl, by decide, nofun⟩
  have hline : (Text.lines "/* callmatch:ignore S1523//callmatch:ignore */".toList)[0]? = some w.text := by
    decide
  exact absurd (h "T.java" _ w 0 hw hline) (by decide)

end Suppression

end CallLint
