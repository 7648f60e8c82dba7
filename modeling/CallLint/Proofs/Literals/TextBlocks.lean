/-
Text blocks as they are written: blanks after the opening delimiter, then the lines of the body, the last of which ends
with the closing delimiter. `WrittenBlock.Indented b n` says that each line that counts starts with `n` blanks.

`Literal.textBlock_layout`: neither the indentation of a block as a whole, nor blanks at the ends of its lines, nor
carriage returns before its line feeds matter for what the block is decoded as, be it a value, none or a fault. When each
leading blank is one byte there is no fault, and the block is read as its lines without the blanks at their ends and
without the largest indentation that they share.
-/
import CallLint.Proofs.Literals.Escapes
import Mathlib.Data.List.TakeWhile
import Mathlib.Order.Bounds.Basic

namespace CallLint

/-! ## Written blocks -/

structure WrittenBlock where
  /-- between the opening delimiter and the line feed after it -/
  opening : List Char
  /-- all lines but the last -/
  body : List (List Char)
  /-- what stands before the closing delimiter on its line -/
  last : List Char
  opening_blank : ∀ c ∈ opening, Text.isBlank c = true
  opening_line : '\n' ∉ opening
  body_lines : ∀ line ∈ body, '\n' ∉ line
  last_line : '\n' ∉ last

namespace WrittenBlock

def lines (b : WrittenBlock) : List (List Char) :=
  b.body ++ [b.last]

def text (b : WrittenBlock) : List Char :=
  ['"', '"', '"'] ++ (b.opening ++ '\n' :: Text.joinWith '\n' b.lines ++ ['"', '"', '"'])

/-- what the block is decoded as -/
def decoded (b : WrittenBlock) : Except Fault (Option Literal) :=
  Literal.ofStringText? (String.ofList b.text)

/-- the block with so many more spaces in front of every line, that of the closing delimiter included -/
def indent (k : Nat) (b : WrittenBlock) : WrittenBlock where
  opening := b.opening
  body := b.body.map (List.replicate k ' ' ++ ·)
  last := List.replicate k ' ' ++ b.last
  opening_blank := b.opening_blank
  opening_line := b.opening_line
  body_lines line hline := by
    obtain ⟨old, hold, rfl⟩ := List.mem_map.1 hline
    simp [b.body_lines old hold]
  last_line := by simp [b.last_line]

/-- the second line is the first with some more spaces and tabs at its end -/
def Trails (line line' : List Char) : Prop :=
  ∃ tail, (∀ c ∈ tail, c = ' ' ∨ c = '\t') ∧ line' = line ++ tail

/-- the second block has some more spaces and tabs at the ends of lines other than the last -/
structure Trailing (b b' : WrittenBlock) : Prop where
  opening : Trails b.opening b'.opening
  body : List.Forall₂ Trails b.body b'.body
  last : b'.last = b.last

/-- the lines that are not blank, and the last one, start with so many blanks at least -/
structure Indented (b : WrittenBlock) (n : Nat) : Prop where
  body : ∀ line ∈ b.body, Text.isBlankText line = false → n ≤ (line.takeWhile Text.isBlank).length
  last : n ≤ (b.last.takeWhile Text.isBlank).length

/-- every blank that a line starts with is one byte -/
def SingleByte (b : WrittenBlock) : Prop :=
  ∀ line ∈ b.lines, ∀ c ∈ line.takeWhile Text.isBlank, c.utf8Size = 1

/-- the lines without the blanks at their ends and without an indentation; nothing is left of blank ones -/
def contents (b : WrittenBlock) (n : Nat) : List Char :=
  Text.joinWith '\n' (b.lines.map fun line => if Text.isBlankText line then [] else (Text.trimEnd line).drop n)

end WrittenBlock

/-- a text with a carriage return before each line feed -/
def Text.withReturns (cs : List Char) : List Char :=
  cs.flatMap fun c => if c = '\n' then ['\r', '\n'] else [c]

/-! ## Blanks at the ends of lines -/

namespace TextBlock

variable {line tail : List Char}

/-- the characters are blanks of one byte -/
def SmallBlanks (tail : List Char) : Prop :=
  ∀ c ∈ tail, Text.isBlank c = true ∧ c.utf8Size = 1

theorem byteLength_cons (c : Char) (cs : List Char) : Text.byteLength (c :: cs) = c.utf8Size + Text.byteLength cs := by
  have from_ (cs : List Char) (n : Nat) : cs.foldl (fun n c => n + c.utf8Size) n = n + Text.byteLength cs := by
    induction cs generalizing n with
    | nil => rfl
    | cons c cs ih =>
      rw [Text.byteLength, List.foldl_cons, List.foldl_cons, ih, ih]
      omega
  rw [Text.byteLength, List.foldl_cons, from_, Nat.zero_add]

theorem byteLength_append (as bs : List Char) : Text.byteLength (as ++ bs) = Text.byteLength as + Text.byteLength bs := by
  induction as with
  | nil => simp [Text.byteLength]
  | cons a as ih => rw [List.cons_append, byteLength_cons, byteLength_cons, ih, Nat.add_assoc]

theorem byteLength_of_small {cs : List Char} (h : ∀ c ∈ cs, c.utf8Size = 1) : Text.byteLength cs = cs.length := by
  induction cs with
  | nil => rfl
  | cons c cs ih =>
    obtain ⟨hc, hcs⟩ := List.forall_mem_cons.1 h
    rw [byteLength_cons, hc, ih hcs, List.length_cons, Nat.add_comm]

theorem isBlankText_append (h : ∀ c ∈ tail, Text.isBlank c = true) :
    Text.isBlankText (line ++ tail) = Text.isBlankText line := by
  have blank : Text.isBlankText tail = true := List.all_eq_true.2 h
  rw [Text.isBlankText, List.all_append]
  exact (congrArg (line.all Text.isBlank && ·) blank).trans (Bool.and_true _)

@[simp]
theorem dropBytes_zero (cs : List Char) : dropBytes 0 cs = .ok cs := by
  rw [dropBytes]

/-- bytes are dropped from the front, whatever follows -/
theorem dropBytes_append {n : Nat} (h : n ≤ Text.byteLength line) (tail : List Char) :
    dropBytes n (line ++ tail) = (dropBytes n line).map (· ++ tail) := by
  induction line generalizing n with
  | nil =>
    obtain rfl : n = 0 := Nat.le_zero.1 h
    rw [dropBytes_zero, dropBytes_zero]
    rfl
  | cons c cs ih =>
    cases n with
    | zero =>
      rw [dropBytes_zero, dropBytes_zero]
      rfl
    | succ n =>
      rw [List.cons_append, dropBytes, dropBytes]
      split_ifs with hc
      · rw [byteLength_cons] at h
        exact ih (by omega)
      · rfl

/-- characters of one byte are dropped one for each byte -/
theorem dropBytes_small {cs : List Char} (h : ∀ c ∈ cs, c.utf8Size = 1) (n : Nat) : dropBytes n cs = .ok (cs.drop n) := by
  induction cs generalizing n with
  | nil =>
    cases n with
    | zero => exact dropBytes_zero []
    | succ n => rw [dropBytes, List.drop_nil]
  | cons c cs ih =>
    obtain ⟨hc, hcs⟩ := List.forall_mem_cons.1 h
    cases n with
    | zero => exact dropBytes_zero (c :: cs)
    | succ n =>
      rw [dropBytes, hc, if_pos (Nat.le_add_left 1 n), Nat.add_sub_cancel, ih hcs, List.drop_succ_cons]

/-- all bytes of a text and more are those of its characters -/
theorem dropBytes_beyond (line : List Char) (n : Nat) (tail : List Char) :
    dropBytes (Text.byteLength line + n) (line ++ tail) = dropBytes n tail := by
  induction line with
  | nil => rw [List.nil_append, Text.byteLength, List.foldl_nil, Nat.zero_add]
  | cons c cs ih =>
    have size : 0 < c.utf8Size := c.utf8Size_pos
    obtain ⟨m, hm⟩ : ∃ m, Text.byteLength (c :: cs) + n = m + 1 :=
      ⟨Text.byteLength (c :: cs) + n - 1, by rw [byteLength_cons]; omega⟩
    have rest : m + 1 - c.utf8Size = Text.byteLength cs + n := by
      rw [byteLength_cons] at hm
      omega
    have fits : c.utf8Size ≤ m + 1 := by
      rw [byteLength_cons] at hm
      omega
    rw [hm, List.cons_append, dropBytes, if_pos fits, rest, ih]

/-! ## One line -/

theorem takeWhile_of_not_blank (h : Text.isBlankText line = false) (tail : List Char) :
    (line ++ tail).takeWhile Text.isBlank = line.takeWhile Text.isBlank := by
  rw [List.takeWhile_append, if_neg]
  intro whole
  have same : line.takeWhile Text.isBlank = line := (List.takeWhile_prefix _).eq_of_length whole
  have blank : Text.isBlankText line = true := List.all_eq_true.2 (List.takeWhile_eq_self_iff.1 same)
  rw [blank] at h
  cases h

theorem takeWhile_of_blank (h : ∀ c ∈ line, Text.isBlank c = true) : line.takeWhile Text.isBlank = line :=
  List.takeWhile_eq_self_iff.2 h

theorem indentOf_le (line : List Char) : indentOf line ≤ Text.byteLength line := by
  have whole := byteLength_append (line.takeWhile Text.isBlank) (line.dropWhile Text.isBlank)
  rw [List.takeWhile_append_dropWhile] at whole
  exact whole ▸ Nat.le_add_right _ _

/-- blanks at the end are trimmed with those of the line -/
theorem trimEnd_dropBytes {n : Nat} (hn : n ≤ Text.byteLength line) (h : ∀ c ∈ tail, Text.isBlank c = true) :
    (dropBytes n (line ++ tail)).map Text.trimEnd = (dropBytes n line).map Text.trimEnd := by
  rw [dropBytes_append hn]
  cases dropBytes n line with
  | error fault => rfl
  | ok rest => exact congrArg Except.ok (Text.trimEnd_append h rest)

/-- Blanks of one byte at the end of a line change nothing: what is cut off ends inside a character or it does not. -/
theorem stripLine_append (indent : Nat) (h : SmallBlanks tail) : stripLine indent (line ++ tail) = stripLine indent line := by
  have blankTail : ∀ c ∈ tail, Text.isBlank c = true := fun c hc => (h c hc).1
  rw [stripLine, stripLine]
  cases hblank : Text.isBlankText line with
  | false =>
    have same : indentOf (line ++ tail) = indentOf line := by
      rw [indentOf, takeWhile_of_not_blank hblank, indentOf]
    rw [same]
    exact trimEnd_dropBytes ((min_le_right _ _).trans (indentOf_le line)) blankTail
  | true =>
    have blankLine : ∀ c ∈ line, Text.isBlank c = true := List.all_eq_true.1 hblank
    have blankWhole : ∀ c ∈ line ++ tail, Text.isBlank c = true :=
      fun c hc => (List.mem_append.1 hc).elim (blankLine c) (blankTail c)
    have whole : indentOf (line ++ tail) = Text.byteLength line + Text.byteLength tail := by
      rw [indentOf, takeWhile_of_blank blankWhole, byteLength_append]
    have first : indentOf line = Text.byteLength line := by rw [indentOf, takeWhile_of_blank blankLine]
    rw [whole, first]
    obtain hle | hlt := le_or_gt indent (Text.byteLength line)
    · rw [min_eq_left hle, min_eq_left (hle.trans (Nat.le_add_right _ _))]
      exact trimEnd_dropBytes hle blankTail
    · -- all of the line is cut off, and then some of its new end
      obtain ⟨more, hmore⟩ : ∃ more, min indent (Text.byteLength line + Text.byteLength tail) = Text.byteLength line + more :=
        ⟨min indent (Text.byteLength line + Text.byteLength tail) - Text.byteLength line, by omega⟩
      have nothing : dropBytes (Text.byteLength line) line = .ok [] := by
        have all := dropBytes_beyond line 0 []
        rwa [List.append_nil, Nat.add_zero, dropBytes_zero] at all
      have rest : Text.trimEnd (tail.drop more) = [] :=
        Text.trimEnd_append (fun c hc => blankTail c (List.mem_of_mem_drop hc)) []
      rw [min_eq_right hlt.le, hmore, nothing, dropBytes_beyond, dropBytes_small fun c hc => (h c hc).2]
      exact congrArg Except.ok rest

theorem byteLength_spaces (k : Nat) : Text.byteLength (List.replicate k ' ') = k := by
  rw [byteLength_of_small fun c hc => (List.mem_replicate.1 hc).2 ▸ rfl, List.length_replicate]

/-- spaces in front of a line are more indentation -/
theorem indentOf_spaces (k : Nat) (line : List Char) : indentOf (List.replicate k ' ' ++ line) = k + indentOf line := by
  have spaces : ∀ c ∈ List.replicate k ' ', Text.isBlank c = true := fun c hc => (List.mem_replicate.1 hc).2 ▸ rfl
  rw [indentOf, List.takeWhile_append_of_pos spaces, byteLength_append, byteLength_spaces, indentOf]

/-- spaces in front of a line change nothing when as many more bytes are cut off -/
theorem stripLine_spaces (k indent : Nat) (line : List Char) :
    stripLine (k + indent) (List.replicate k ' ' ++ line) = stripLine indent line := by
  have bytes : dropBytes (k + min indent (indentOf line)) (List.replicate k ' ' ++ line) =
      dropBytes (min indent (indentOf line)) line := by
    have beyond := dropBytes_beyond (List.replicate k ' ') (min indent (indentOf line)) line
    rwa [byteLength_spaces] at beyond
  rw [stripLine, indentOf_spaces, Nat.add_min_add_left, bytes, stripLine]

/-- a line whose leading blanks are of one byte each -/
theorem stripLine_small {n : Nat} (h : ∀ c ∈ line.takeWhile Text.isBlank, c.utf8Size = 1) :
    stripLine n line = .ok (Text.trimEnd (line.drop (min n (line.takeWhile Text.isBlank).length))) := by
  have width : indentOf line = (line.takeWhile Text.isBlank).length := byteLength_of_small h
  have fits : min n (indentOf line) ≤ (line.takeWhile Text.isBlank).length := width ▸ min_le_right _ _
  have cut : dropBytes (min n (indentOf line)) line = .ok (line.drop (min n (indentOf line))) := by
    have inside : min n (indentOf line) ≤ Text.byteLength (line.takeWhile Text.isBlank) := min_le_right _ _
    have parts := dropBytes_append inside (line.dropWhile Text.isBlank)
    rw [dropBytes_small h, List.takeWhile_append_dropWhile] at parts
    rw [parts]
    refine congrArg Except.ok ?_
    dsimp only
    rw [← List.drop_append_of_le_length fits, List.takeWhile_append_dropWhile]
  rw [stripLine, cut, ← width]
  rfl

/-! ## The shared indentation -/

theorem countedLines_concat (body : List (List Char)) (last : List Char) :
    countedLines (body ++ [last]) = body.filter (fun line => !Text.isBlankText line) ++ [last] := by
  induction body with
  | nil => rfl
  | cons line body ih =>
    have more : ∃ next rest, body ++ [last] = next :: rest := List.exists_cons_of_ne_nil (by simp)
    obtain ⟨next, rest, hmore⟩ := more
    rw [List.cons_append, List.filter_cons, hmore, countedLines, ← hmore, ih]
    · cases Text.isBlankText line <;> rfl
    · simp

theorem min?_add (k : Nat) (ns : List Nat) : (ns.map (k + ·)).min? = ns.min?.map (k + ·) := by
  cases ns with
  | nil => rfl
  | cons n ns =>
    rw [List.map_cons, List.min?_cons', List.min?_cons', Option.map_some]
    refine congrArg some ?_
    induction ns generalizing n with
    | nil => rfl
    | cons m ns ih => rw [List.map_cons, List.foldl_cons, List.foldl_cons, Nat.add_min_add_left, ih]

end TextBlock

/-! ## Whole blocks -/

namespace WrittenBlock

open TextBlock

variable {b b' : WrittenBlock}

theorem line_feeds (b : WrittenBlock) : ∀ line ∈ b.lines, '\n' ∉ line := by
  intro line hline
  rcases List.mem_append.1 hline with hline | hline
  · exact b.body_lines line hline
  · exact List.mem_singleton.1 hline ▸ b.last_line

/-- the lines of the block are those that are written -/
theorem lines_eq (b : WrittenBlock) : TextBlock.lines (b.opening ++ '\n' :: Text.joinWith '\n' b.lines) = b.lines := by
  have feed : (b.opening ++ '\n' :: Text.joinWith '\n' b.lines).contains '\n' = true := by simp
  have before : ∀ c ∈ b.opening, (c != '\n') = true :=
    fun c hc => bne_iff_ne.2 fun h => b.opening_line (h ▸ hc)
  rw [TextBlock.lines, feed, if_pos rfl, List.dropWhile_append_of_pos before, List.dropWhile_cons_of_neg (by decide),
    List.drop_succ_cons, List.drop_zero]
  exact Text.splitAt_joinWith (by simp [WrittenBlock.lines]) b.line_feeds

/-- the lines are stripped one by one, and what is left of them is read together -/
theorem decoded_eq (b : WrittenBlock) :
    b.decoded = ((b.lines.map (stripLine (sharedIndent b.lines))).mapM id).map fun ls =>
      (unescape (Text.joinWith '\n' ls)).map fun cs => .str (String.ofList cs) := by
  have stripped : strip (b.opening ++ '\n' :: Text.joinWith '\n' b.lines) =
      ((b.lines.map (stripLine (sharedIndent b.lines))).mapM id).map (Text.joinWith '\n') := by
    rw [strip, b.lines_eq, List.mapM_map]
    rfl
  rw [decoded, Literal.ofStringText?, Literal.stringChars?, String.toList_ofList, text, Text.dropLeading_eq_some.2 rfl]
  dsimp only
  rw [Text.dropTrailing_eq_some.2 rfl]
  dsimp only
  rw [stripped]
  cases (b.lines.map (stripLine (sharedIndent b.lines))).mapM id <;> rfl

theorem decoded_congr
    (h : b'.lines.map (stripLine (sharedIndent b'.lines)) = b.lines.map (stripLine (sharedIndent b.lines))) :
    b'.decoded = b.decoded := by
  rw [decoded_eq, decoded_eq, h]

theorem exists_sharedIndent (b : WrittenBlock) : ∃ n, ((countedLines b.lines).map indentOf).min? = some n := by
  rw [lines, countedLines_concat]
  cases h : ((b.body.filter (fun line => !Text.isBlankText line) ++ [b.last]).map indentOf).min? with
  | none => simp [List.min?_eq_none_iff] at h
  | some n => exact ⟨n, rfl⟩

/-! ## What does not matter -/

theorem lines_indent (k : Nat) (b : WrittenBlock) : (b.indent k).lines = b.lines.map (List.replicate k ' ' ++ ·) := by
  rw [lines, lines, List.map_append]
  rfl

theorem isBlankText_spaces (k : Nat) (line : List Char) :
    Text.isBlankText (List.replicate k ' ' ++ line) = Text.isBlankText line := by
  have spaces : Text.isBlankText (List.replicate k ' ') = true :=
    List.all_eq_true.2 fun c hc => (List.mem_replicate.1 hc).2 ▸ rfl
  rw [Text.isBlankText, List.all_append]
  exact congrArg (· && line.all Text.isBlank) spaces

theorem sharedIndent_indent (k : Nat) (b : WrittenBlock) :
    sharedIndent (b.indent k).lines = k + sharedIndent b.lines := by
  have counted : countedLines (b.indent k).lines = (countedLines b.lines).map (List.replicate k ' ' ++ ·) := by
    rw [lines, lines, countedLines_concat, countedLines_concat, List.map_append, indent, List.filter_map]
    simp only [Function.comp_def, isBlankText_spaces]
    rfl
  have indents : ((countedLines b.lines).map (List.replicate k ' ' ++ ·)).map indentOf =
      ((countedLines b.lines).map indentOf).map (k + ·) := by
    rw [List.map_map, List.map_map]
    exact List.map_congr_left fun line _ => indentOf_spaces k line
  obtain ⟨n, hn⟩ := b.exists_sharedIndent
  rw [sharedIndent, counted, indents, min?_add, sharedIndent, hn]
  rfl

/-- Spaces in front of every line do not matter. -/
theorem decoded_indent (k : Nat) (b : WrittenBlock) : (b.indent k).decoded = b.decoded := by
  refine decoded_congr ?_
  rw [sharedIndent_indent, lines_indent, List.map_map]
  exact List.map_congr_left fun line _ => stripLine_spaces k _ line

/-- a line with blanks of one byte after it -/
def TrailsLine (line line' : List Char) : Prop :=
  ∃ tail, SmallBlanks tail ∧ line' = line ++ tail

theorem stripLine_trailing {body body' : List (List Char)} (h : List.Forall₂ TrailsLine body body') (n : Nat) :
    body'.map (stripLine n) = body.map (stripLine n) := by
  induction h with
  | nil => rfl
  | cons hline _ ih =>
    obtain ⟨tail, htail, rfl⟩ := hline
    rw [List.map_cons, List.map_cons, stripLine_append n htail, ih]

theorem indents_trailing {body body' : List (List Char)} (h : List.Forall₂ TrailsLine body body') :
    (body'.filter fun line => !Text.isBlankText line).map indentOf =
      (body.filter fun line => !Text.isBlankText line).map indentOf := by
  induction h with
  | nil => rfl
  | @cons line _ _ _ hline _ ih =>
    obtain ⟨tail, htail, rfl⟩ := hline
    rw [List.filter_cons, List.filter_cons, isBlankText_append fun c hc => (htail c hc).1]
    cases hblank : Text.isBlankText line with
    | true => exact ih
    | false =>
      have same : indentOf (line ++ tail) = indentOf line := by
        rw [indentOf, takeWhile_of_not_blank hblank, indentOf]
      rw [Bool.not_false, if_pos rfl, if_pos rfl, List.map_cons, List.map_cons, same, ih]

/-- Blanks of one byte at the ends of lines other than the last do not matter. -/
theorem decoded_trailing (hbody : List.Forall₂ TrailsLine b.body b'.body) (hlast : b'.last = b.last) :
    b'.decoded = b.decoded := by
  have shared : sharedIndent b'.lines = sharedIndent b.lines := by
    rw [lines, lines, sharedIndent, sharedIndent, countedLines_concat, countedLines_concat, List.map_append,
      List.map_append, indents_trailing hbody, hlast]
  refine decoded_congr ?_
  rw [shared, lines, lines, hlast, List.map_append, List.map_append, stripLine_trailing hbody]

/-! ## Carriage returns -/

/-- the block with a carriage return before each line feed -/
def withReturns (b : WrittenBlock) : WrittenBlock where
  opening := b.opening ++ ['\r']
  body := b.body.map (· ++ ['\r'])
  last := b.last
  opening_blank c hc := (List.mem_append.1 hc).elim (b.opening_blank c) fun h => List.mem_singleton.1 h ▸ rfl
  opening_line := by simp [b.opening_line]
  body_lines line hline := by
    obtain ⟨old, hold, rfl⟩ := List.mem_map.1 hline
    simp [b.body_lines old hold]
  last_line := b.last_line

theorem withReturns_line {line : List Char} (h : '\n' ∉ line) : Text.withReturns line = line := by
  induction line with
  | nil => rfl
  | cons c cs ih =>
    obtain ⟨hc, hcs⟩ : '\n' ≠ c ∧ '\n' ∉ cs := by simpa using h
    rw [Text.withReturns, List.flatMap_cons, if_neg hc.symm]
    exact congrArg (c :: ·) (ih hcs)

theorem withReturns_append (as bs : List Char) :
    Text.withReturns (as ++ bs) = Text.withReturns as ++ Text.withReturns bs :=
  List.flatMap_append

theorem withReturns_feed (cs : List Char) : Text.withReturns ('\n' :: cs) = '\r' :: '\n' :: Text.withReturns cs :=
  rfl

theorem withReturns_lines {body : List (List Char)} {last : List Char} (hbody : ∀ line ∈ body, '\n' ∉ line)
    (hlast : '\n' ∉ last) :
    Text.withReturns (Text.joinWith '\n' (body ++ [last])) =
      Text.joinWith '\n' (body.map (· ++ ['\r']) ++ [last]) := by
  induction body with
  | nil => exact withReturns_line hlast
  | cons line body ih =>
    obtain ⟨hline, hbody⟩ := List.forall_mem_cons.1 hbody
    rw [List.map_cons, List.cons_append, List.cons_append, Text.joinWith_cons (by simp), Text.joinWith_cons (by simp),
      withReturns_append, withReturns_line hline, withReturns_feed, ih hbody]
    simp

theorem text_withReturns (b : WrittenBlock) : b.withReturns.text = Text.withReturns b.text := by
  have quotes : '\n' ∉ ['"', '"', '"'] := by decide
  have content := withReturns_lines b.body_lines b.last_line
  rw [text, text, withReturns_append, withReturns_append, withReturns_append, withReturns_line quotes,
    withReturns_line b.opening_line, withReturns_feed, lines, lines, content]
  simp [withReturns]

/-- Carriage returns before line feeds do not matter. -/
theorem decoded_withReturns (b : WrittenBlock) : b.withReturns.decoded = b.decoded := by
  have returns : SmallBlanks ['\r'] := fun c hc => List.mem_singleton.1 hc ▸ ⟨rfl, rfl⟩
  refine decoded_trailing ?_ rfl
  rw [withReturns, List.forall₂_map_right_iff]
  exact List.forall₂_same.2 fun line _ => ⟨['\r'], returns, rfl⟩

/-! ## What a block is read as -/

/-- what stands before a text that is not blank does not matter for the text's end -/
theorem trimEnd_append_left {rest : List Char} (h : Text.isBlankText rest = false) (cs : List Char) :
    Text.trimEnd (cs ++ rest) = cs ++ Text.trimEnd rest := by
  have left : (rest.reverse.dropWhile Text.isBlank).isEmpty = false := by
    rw [Bool.eq_false_iff]
    intro hempty
    have blank : ∀ c ∈ rest, Text.isBlank c = true := fun c hc =>
      List.dropWhile_eq_nil_iff.1 (List.isEmpty_iff.1 hempty) c (List.mem_reverse.2 hc)
    rw [show Text.isBlankText rest = true from List.all_eq_true.2 blank] at h
    cases h
  rw [Text.trimEnd, Text.trimEnd, List.reverse_append, List.dropWhile_append, left, if_neg Bool.false_ne_true,
    List.reverse_append, List.reverse_reverse]

/-- a line that is not blank loses its indentation before or after the blanks at its end -/
theorem trimEnd_drop {line : List Char} {n : Nat} (h : Text.isBlankText line = false)
    (hn : n ≤ (line.takeWhile Text.isBlank).length) : Text.trimEnd (line.drop n) = (Text.trimEnd line).drop n := by
  have front : line.take n = (line.takeWhile Text.isBlank).take n := by
    conv_lhs => rw [← List.takeWhile_append_dropWhile (p := Text.isBlank) (l := line)]
    rw [List.take_append_of_le_length hn]
  have blankFront : Text.isBlankText (line.take n) = true := by
    rw [front]
    exact List.all_eq_true.2 fun c hc => List.mem_takeWhile_imp (List.mem_of_mem_take hc)
  have notBlank : Text.isBlankText (line.drop n) = false := by
    rw [← List.take_append_drop n line, Text.isBlankText, List.all_append] at h
    rw [Text.isBlankText] at blankFront ⊢
    rwa [blankFront, Bool.true_and] at h
  have length : (line.take n).length = n := List.length_take_of_le (hn.trans (List.takeWhile_prefix _).length_le)
  have parts : Text.trimEnd line = line.take n ++ Text.trimEnd (line.drop n) := by
    rw [← trimEnd_append_left notBlank, List.take_append_drop]
  rw [parts, List.drop_left' length]

/-- the shared indentation is the largest that the block has -/
theorem isGreatest_sharedIndent (h : b.SingleByte) : IsGreatest {n | b.Indented n} (sharedIndent b.lines) := by
  have width (line : List Char) (hline : line ∈ b.lines) : indentOf line = (line.takeWhile Text.isBlank).length :=
    byteLength_of_small (h line hline)
  obtain ⟨n, hn⟩ := b.exists_sharedIndent
  have shared : sharedIndent b.lines = n := by rw [sharedIndent, hn, Option.getD_some]
  obtain ⟨hmem, least⟩ := List.min?_eq_some_iff.1 hn
  obtain ⟨line, hcounted, hindent⟩ := List.mem_map.1 hmem
  rw [lines, countedLines_concat] at hcounted least
  rw [shared]
  constructor
  · constructor
    · intro line hline hblank
      rw [← width line (List.mem_append_left _ hline)]
      refine least _ (List.mem_map.2 ⟨line, List.mem_append_left _ (List.mem_filter.2 ⟨hline, ?_⟩), rfl⟩)
      rw [hblank]
      rfl
    · rw [← width b.last (List.mem_append_right _ List.mem_cons_self)]
      exact least _ (List.mem_map.2 ⟨b.last, List.mem_append_right _ List.mem_cons_self, rfl⟩)
  · -- some line that counts has no more blanks
    intro m hm
    rw [← hindent]
    rcases List.mem_append.1 hcounted with hbody | hlast
    · obtain ⟨hbody, hblank⟩ := List.mem_filter.1 hbody
      rw [width line (List.mem_append_left _ hbody)]
      exact hm.body line hbody (by simpa using hblank)
    · obtain rfl := List.mem_singleton.1 hlast
      rw [width b.last (List.mem_append_right _ List.mem_cons_self)]
      exact hm.last

theorem stripLine_singleByte (h : b.SingleByte) {n : Nat} (hn : b.Indented n) {line : List Char} (hline : line ∈ b.lines) :
    stripLine n line = .ok (if Text.isBlankText line then [] else (Text.trimEnd line).drop n) := by
  rw [stripLine_small (h line hline)]
  refine congrArg Except.ok ?_
  cases hblank : Text.isBlankText line with
  | true =>
    have blank : ∀ c ∈ line, Text.isBlank c = true := List.all_eq_true.1 hblank
    rw [if_pos rfl]
    exact Text.trimEnd_append (fun c hc => blank c (List.mem_of_mem_drop hc)) []
  | false =>
    have fits : n ≤ (line.takeWhile Text.isBlank).length := by
      rcases List.mem_append.1 hline with hbody | hlast
      · exact hn.body line hbody hblank
      · exact List.mem_singleton.1 hlast ▸ hn.last
    rw [min_eq_left fits, trimEnd_drop hblank fits, if_neg Bool.false_ne_true]

theorem decoded_singleByte (h : b.SingleByte) :
    b.decoded = .ok ((unescape (b.contents (sharedIndent b.lines))).map fun cs => .str (String.ofList cs)) := by
  have stripped : b.lines.map (stripLine (sharedIndent b.lines)) = b.lines.map fun line =>
      .ok (if Text.isBlankText line then [] else (Text.trimEnd line).drop (sharedIndent b.lines)) :=
    List.map_congr_left fun line hline => stripLine_singleByte h (isGreatest_sharedIndent h).1 hline
  have read : (b.lines.map (stripLine (sharedIndent b.lines))).mapM id = .ok (b.lines.map fun line =>
      if Text.isBlankText line then [] else (Text.trimEnd line).drop (sharedIndent b.lines)) := by
    rw [stripped, List.mapM_map]
    exact List.mapM_pure
  rw [decoded_eq, read, contents]
  rfl

end WrittenBlock

/-- **The layout of a text block does not matter.** Spaces in front of every line, spaces and tabs at the ends of lines
other than the last, and carriage returns before line feeds change nothing about what a block is decoded as. When its
leading blanks are of one byte each it has the largest indentation that its lines share, and it is read as what is left of
its lines without that and without the blanks at their ends. -/
theorem Literal.textBlock_layout (b : WrittenBlock) :
    (∀ k, (b.indent k).decoded = b.decoded) ∧
    (∀ b', b.Trailing b' → b'.decoded = b.decoded) ∧
    Literal.ofStringText? (String.ofList (Text.withReturns b.text)) = Literal.ofStringText? (String.ofList b.text) ∧
    (b.SingleByte → ∃ n, IsGreatest {n | b.Indented n} n ∧
      b.decoded = .ok ((unescape (b.contents n)).map fun cs => .str (String.ofList cs))) := by
  refine ⟨fun k => b.decoded_indent k, fun b' h => ?_, ?_, fun h => ⟨_, b.isGreatest_sharedIndent h, b.decoded_singleByte h⟩⟩
  · have small {line line' : List Char} (h : WrittenBlock.Trails line line') : WrittenBlock.TrailsLine line line' := by
      obtain ⟨tail, htail, rfl⟩ := h
      refine ⟨tail, fun c hc => ?_, rfl⟩
      rcases htail c hc with rfl | rfl <;> exact ⟨rfl, rfl⟩
    exact WrittenBlock.decoded_trailing (h.body.imp fun _ _ => small) h.last
  · rw [← b.text_withReturns]
    exact b.decoded_withReturns

/-- a line that goes on, an empty one and one with more indentation -/
theorem Literal.textBlock_layout_mixed :
    let block (opening : List Char) (body : List (List Char)) (h : opening.all Text.isBlank = true ∧ '\n' ∉ opening)
        (lines : ∀ line ∈ body, '\n' ∉ line) : WrittenBlock :=
      ⟨opening, body, [' ', ' '], List.all_eq_true.1 h.1, h.2, lines, by decide⟩
    let b := block [] ["  a \\".toList, [], "   b".toList] (by decide) (by decide)
    let b' := block [' '] ["  a \\\t".toList, [' '], "   b".toList] (by decide) (by decide)
    b.Trailing b' ∧ b.SingleByte ∧ b'.decoded = .ok (some (.str "a \n b\n")) ∧
      (b.indent 3).decoded = .ok (some (.str "a \n b\n")) := by
  intro block b b'
  have trails : b.Trailing b' :=
    ⟨⟨[' '], by simp, rfl⟩,
      .cons ⟨['\t'], by simp, rfl⟩ (.cons ⟨[' '], by simp, rfl⟩ (.cons ⟨[], by simp, rfl⟩ .nil)), rfl⟩
  have small : b.SingleByte := by
    have all : (b.lines.all fun line => (line.takeWhile Text.isBlank).all fun c => c.utf8Size == 1) = true := by decide
    intro line hline c hc
    exact beq_iff_eq.1 (List.all_eq_true.1 (List.all_eq_true.1 all line hline) c hc)
  have greatest : IsGreatest {n | b.Indented n} 2 := ⟨⟨by decide, by decide⟩, fun _ h => h.last⟩
  obtain ⟨spaces, ends, -, value⟩ := textBlock_layout b
  obtain ⟨n, hn, decoded⟩ := value small
  obtain rfl := hn.unique greatest
  exact ⟨trails, small, (ends b' trails).trans (decoded.trans rfl), (spaces 3).trans (decoded.trans rfl)⟩

end CallLint
