/-
Lines of a text and lines of its bytes. The text of a file is cut at its line feeds after its bytes were decoded, with
replacements where they are no text. A line feed is never part of another character and never of an ill-formed piece, so
decoding goes on afresh after each (`Text.lossy_feed`), and the lines of the text are the pieces of the bytes between line
feeds, each decoded on its own (`Text.lines_lossy`). Where a piece ends at a line feed, a carriage return before it is no
part of the line; bytes that end with a line feed have no line after it.

An offset stands on a line when it lies in the piece of the line or at its end (`LineOf.lineAt_eq`).
-/
import CallLint.Proofs.Grammar.WordTexts
import CallLint.Proofs.Positions.Places
import CallLint.Text.Line

namespace CallLint

/-! ## Pieces of bytes -/

/-- the bytes of the line after so many line feeds: those up to the next line feed, or up to the end -/
structure LineOf (bytes : List UInt8) (feeds : Nat) (before piece after : List UInt8) : Prop where
  whole : bytes = before ++ (piece ++ after)
  count : before.count lineFeed = feeds
  start : ∀ b ∈ before.getLast?, b = lineFeed
  free : lineFeed ∉ piece
  stop : ∀ b ∈ after.head?, b = lineFeed

namespace LineOf

variable {bytes before piece after : List UInt8} {feeds offset : Nat}

/-- what stands before a line is empty or ends with a line feed -/
theorem before_cases (h : LineOf bytes feeds before piece after) : before = [] ∨ ∃ init, before = init ++ [lineFeed] := by
  rcases List.eq_nil_or_concat before with rfl | ⟨init, b, rfl⟩
  · exact .inl rfl
  · have last : b = lineFeed := h.start b (by simp)
    exact .inr ⟨init, by rw [last, List.concat_eq_append]⟩

theorem after_cases (h : LineOf bytes feeds before piece after) : after = [] ∨ ∃ rest, after = lineFeed :: rest := by
  cases after with
  | nil => exact .inl rfl
  | cons b rest =>
    have first : b = lineFeed := h.stop b rfl
    exact .inr ⟨rest, by rw [first]⟩

/-- **An offset stands on a line** when it lies in the piece of the line, or at its end. -/
theorem lineAt_eq (h : LineOf bytes feeds before piece after) (hoffset : offset ≤ bytes.length) :
    lineAt bytes offset = feeds + 1 ↔ before.length ≤ offset ∧ offset ≤ before.length + piece.length := by
  have free : piece.count lineFeed = 0 := List.count_eq_zero.2 h.free
  rw [lineAt, Nat.add_right_cancel_iff, ← h.count, h.whole, List.take_append, List.take_append, List.count_append,
    List.count_append]
  have inside : (piece.take (offset - before.length)).count lineFeed = 0 :=
    Nat.le_zero.1 (free ▸ (List.take_sublist _ _).count_le _)
  rw [inside, Nat.zero_add]
  rcases Nat.lt_or_ge offset before.length with hlt | hge
  · -- the line feed at the end of what stands before is still to come
    have fewer : (before.take offset).count lineFeed < before.count lineFeed := by
      obtain rfl | ⟨init, rfl⟩ := h.before_cases
      · exact absurd hlt (Nat.not_lt_zero _)
      · rw [List.length_append, List.length_singleton, Nat.lt_succ_iff] at hlt
        rw [List.take_append_of_le_length hlt, List.count_append, List.count_singleton_self]
        exact Nat.lt_succ_of_le ((List.take_sublist _ _).count_le _)
    have nothing : after.take (offset - before.length - piece.length) = [] := by
      rw [Nat.sub_eq_zero_of_le hlt.le, Nat.zero_sub, List.take_zero]
    rw [nothing, List.count_nil]
    omega
  · rw [List.take_of_length_le hge]
    rcases Nat.lt_or_ge (before.length + piece.length) offset with hgt | hle
    · have more : 0 < (after.take (offset - before.length - piece.length)).count lineFeed := by
        obtain rfl | ⟨rest, rfl⟩ := h.after_cases
        · rw [h.whole, List.append_nil, List.length_append] at hoffset
          omega
        · obtain ⟨n, hn⟩ : ∃ n, offset - before.length - piece.length = n + 1 := ⟨_, (Nat.succ_pred_eq_of_pos (by omega)).symm⟩
          rw [hn, List.take_succ_cons, List.count_cons_self]
          exact Nat.succ_pos _
      omega
    · have nothing : after.take (offset - before.length - piece.length) = [] := by
        rw [Nat.sub_sub, Nat.sub_eq_zero_of_le hle, List.take_zero]
      rw [nothing, List.count_nil]
      omega

/-- a line further down, after one more line -/
theorem later (h : LineOf bytes feeds before piece after) {first : List UInt8} (hfirst : lineFeed ∉ first) :
    LineOf (first ++ lineFeed :: bytes) (feeds + 1) (first ++ lineFeed :: before) piece after where
  whole := by rw [h.whole, List.append_assoc, List.cons_append]
  count := by rw [List.count_append, List.count_cons_self, List.count_eq_zero.2 hfirst, h.count, Nat.zero_add]
  start b hb := by
    rw [List.getLast?_append_cons] at hb
    cases before with
    | nil => exact (Option.some.inj hb).symm
    | cons c before =>
      rw [List.getLast?_cons_cons] at hb
      exact h.start b hb
  free := h.free
  stop := h.stop

end LineOf

namespace Text

/-! ## Decoding piece by piece -/

/-- the text of bytes with replacements, as characters -/
def lossy (bytes : List UInt8) : List Char :=
  (decodeLossy bytes).toList

/-- the first character of the text, with the bytes that it is made of -/
def firstLossy (bytes : List UInt8) : Glyph :=
  (readGlyph bytes).getD ⟨replacement, illFormedLength bytes⟩

theorem illFormedLength_pos (bytes : List UInt8) : 1 ≤ illFormedLength bytes := by
  unfold illFormedLength
  repeat' split
  all_goals decide

theorem firstLossy_width (bytes : List UInt8) : 1 ≤ (firstLossy bytes).width := by
  unfold firstLossy
  cases hread : readGlyph bytes with
  | none => exact illFormedLength_pos bytes
  | some g => exact readGlyph_width hread

theorem lossy_eq (bytes : List UInt8) : lossy bytes = (decodeLossyFrom #[] 0 bytes).toList :=
  String.toList_ofList

theorem decodeLossyFrom_eq (acc : Array Char) (skip : Nat) (bytes : List UInt8) :
    (decodeLossyFrom acc skip bytes).toList = acc.toList ++ lossy (bytes.drop skip) := by
  induction bytes generalizing acc skip with
  | nil => simp [decodeLossyFrom, lossy_eq]
  | cons b rest ih =>
    cases skip with
    | succ skip => exact ih acc skip
    | zero =>
      rw [List.drop_zero, lossy_eq, decodeLossyFrom, decodeLossyFrom]
      split
      · rw [ih, ih]
        simp
      · rw [ih, ih]
        simp

/-- the text is the first character and the text of the bytes after it -/
theorem lossy_cons (b : UInt8) (rest : List UInt8) :
    lossy (b :: rest) = (firstLossy (b :: rest)).char :: lossy ((b :: rest).drop (firstLossy (b :: rest)).width) := by
  have skipped {n : Nat} (hn : 1 ≤ n) : (b :: rest).drop n = rest.drop (n - 1) := by
    obtain ⟨m, rfl⟩ := Nat.exists_eq_add_of_le' hn
    rfl
  rw [skipped (firstLossy_width _), lossy_eq, decodeLossyFrom]
  unfold firstLossy
  cases readGlyph (b :: rest) with
  | some g => simp [decodeLossyFrom_eq]
  | none => simp [decodeLossyFrom_eq]

/-! ## Line feeds -/

/-- only a first byte of a character can be one of ASCII -/
theorem Code.tail_large {code : List UInt8} {g : Glyph} (h : Code code g) : ∀ b ∈ code.tail, 0x80 ≤ b := by
  have continues {b : UInt8} (hb : isContinuation b = true) : 0x80 ≤ b := by
    rw [isContinuation, Bool.and_eq_true, decide_eq_true_eq] at hb
    exact hb.1
  have second {a b : UInt8} (hb : secondByteFits a b = true) : 0x80 ≤ b :=
    UInt8.le_iff_toNat_le.2 (secondByteFits_bounds hb).1.1
  cases h with
  | one _ => simp
  | two _ _ hb => simpa using continues hb
  | three _ _ hb hc => simpa using ⟨second hb, continues hc⟩
  | four _ _ hb hc hd => simpa using ⟨second hb, continues hc, continues hd⟩

/-- a line feed is read from the byte of that name only -/
theorem Code.eq_feed {code : List UInt8} {g : Glyph} (h : Code code g) (hg : g.char = '\n') : code = [lineFeed] := by
  have width : g.width = 1 := by
    rw [← h.size, hg]
    rfl
  cases h with
  | @one a ha =>
    have value := congrArg Char.toNat hg
    have small : a.toNat < 0x80 := ha
    have valid : a.toNat.isValidChar := .inl (by omega)
    rw [Char.ofNat, dif_pos valid] at value
    have feed : a.toNat = 10 := value
    rw [show a = lineFeed from UInt8.toNat_inj.1 feed]
  | two _ _ _ => cases width
  | three _ _ _ _ => cases width
  | four _ _ _ _ _ => cases width

/-- an ill-formed piece ends before a line feed -/
theorem illFormedLength_feed (b : UInt8) (piece rest : List UInt8) :
    illFormedLength (b :: piece ++ lineFeed :: rest) = illFormedLength (b :: piece) := by
  have notSecond : secondByteFits b lineFeed = false :=
    Bool.eq_false_iff.2 fun h => absurd (secondByteFits_bounds h).1.1 (by decide)
  have notThird : isContinuation lineFeed = false := by decide
  match piece with
  | [] => simp [illFormedLength, notSecond]
  | [c] => simp [illFormedLength, notThird]
  | c :: d :: more => rfl

theorem illFormedLength_le (b : UInt8) (rest : List UInt8) : illFormedLength (b :: rest) ≤ (b :: rest).length := by
  unfold illFormedLength
  repeat' split
  all_goals simp_all

/-- a character is read from the bytes before a line feed, if it is read at all -/
theorem readGlyph_feed (b : UInt8) (piece rest : List UInt8) :
    readGlyph (b :: piece ++ lineFeed :: rest) = readGlyph (b :: piece) := by
  cases hread : readGlyph (b :: piece ++ lineFeed :: rest) with
  | none =>
    cases hpiece : readGlyph (b :: piece) with
    | none => rfl
    | some g =>
      obtain ⟨code, more, hbytes, hcode⟩ := exists_code hpiece
      rw [hbytes, List.append_assoc, readGlyph_append hcode] at hread
      cases hread
  | some g =>
    obtain ⟨code, more, hbytes, hcode⟩ := exists_code hread
    rcases List.append_eq_append_iff.1 hbytes with ⟨as, hcode', hrest⟩ | ⟨cs, hpiece, -⟩
    · cases as with
      | nil => rw [← List.append_nil (b :: piece), ← hcode', ← List.append_nil code, readGlyph_append hcode]
      | cons a as =>
        -- the code would reach over the line feed
        obtain ⟨rfl, -⟩ := List.cons_eq_cons.1 hrest
        have large := hcode.tail_large lineFeed (by rw [hcode']; simp)
        exact absurd large (by decide)
    · rw [hpiece, readGlyph_append hcode]

/-- the first character before a line feed is the same without it -/
theorem firstLossy_feed (b : UInt8) (piece rest : List UInt8) :
    firstLossy (b :: piece ++ lineFeed :: rest) = firstLossy (b :: piece) := by
  rw [firstLossy, firstLossy, readGlyph_feed, illFormedLength_feed]

theorem firstLossy_le (b : UInt8) (rest : List UInt8) : (firstLossy (b :: rest)).width ≤ (b :: rest).length := by
  unfold firstLossy
  cases hread : readGlyph (b :: rest) with
  | none => exact illFormedLength_le b rest
  | some g => exact readGlyph_width_le hread

/-- **Decoding goes on afresh after a line feed.** -/
theorem lossy_feed (piece rest : List UInt8) : lossy (piece ++ lineFeed :: rest) = lossy piece ++ '\n' :: lossy rest := by
  induction hn : piece.length using Nat.strong_induction_on generalizing piece with
  | _ n ih =>
    cases piece with
    | nil =>
      have first : firstLossy (lineFeed :: rest) = ⟨'\n', 1⟩ := rfl
      rw [List.nil_append, lossy_cons, first]
      rfl
    | cons b piece =>
      have taken := firstLossy_width (b :: piece)
      have fits := firstLossy_le b piece
      rw [List.cons_append, lossy_cons, ← List.cons_append, firstLossy_feed, List.drop_append_of_le_length fits,
        ih _ _ _ rfl, lossy_cons b piece, List.cons_append]
      rw [List.length_drop]
      omega

theorem firstLossy_char {b : UInt8} {rest : List UInt8} (h : (firstLossy (b :: rest)).char = '\n') : b = lineFeed := by
  unfold firstLossy at h
  cases hread : readGlyph (b :: rest) with
  | none =>
    rw [hread, Option.getD_none] at h
    have other : replacement ≠ '\n' := by decide
    exact absurd h other
  | some g =>
    obtain ⟨code, more, hbytes, hcode⟩ := exists_code hread
    rw [hread] at h
    rw [hcode.eq_feed h] at hbytes
    exact (List.cons_eq_cons.1 hbytes).1

/-- bytes without line feeds are text without line feeds -/
theorem feed_notMem_lossy {bytes : List UInt8} (h : lineFeed ∉ bytes) : '\n' ∉ lossy bytes := by
  induction hn : bytes.length using Nat.strong_induction_on generalizing bytes with
  | _ n ih =>
    cases bytes with
    | nil => simp [lossy_eq, decodeLossyFrom]
    | cons b rest =>
      have taken := firstLossy_width (b :: rest)
      have later : '\n' ∉ lossy ((b :: rest).drop (firstLossy (b :: rest)).width) := by
        refine ih _ ?_ (fun hin => h (List.mem_of_mem_drop hin)) rfl
        rw [List.length_drop, ← hn, List.length_cons]
        omega
      rw [lossy_cons]
      refine List.not_mem_cons_of_ne_of_not_mem (fun hfirst => ?_) later
      exact h (firstLossy_char hfirst.symm ▸ List.mem_cons_self)

theorem lossy_eq_nil {bytes : List UInt8} : lossy bytes = [] ↔ bytes = [] := by
  cases bytes with
  | nil => simp [lossy_eq, decodeLossyFrom]
  | cons b rest => simp [lossy_cons]

/-! ## Lines -/

theorem lines_feed {first rest : List Char} (h : '\n' ∉ first) :
    lines (first ++ '\n' :: rest) = dropReturn first :: lines rest := by
  rw [lines, lines, splitAt_append, splitAt_eq_single h, List.singleton_append]
  cases hparts : splitAt '\n' rest with
  | nil => exact absurd hparts (splitAt_ne_nil _ _)
  | cons part parts => rfl

theorem lines_last {last : List Char} (h : '\n' ∉ last) : lines last = if last.isEmpty then [] else [last] := by
  rw [lines, splitAt_eq_single h]
  rfl

/-- the line that a piece of bytes is read as: without the carriage return before its line feed, if one follows -/
def LineText (piece after : List UInt8) (line : List Char) : Prop :=
  (after = [] ∧ piece ≠ [] ∧ line = lossy piece) ∨ (after ≠ [] ∧ line = dropReturn (lossy piece))

theorem lines_before (before rest : List UInt8) (h : ∀ b ∈ before.getLast?, b = lineFeed) :
    ∃ above, above.length = before.count lineFeed ∧ lines (lossy (before ++ rest)) = above ++ lines (lossy rest) := by
  induction hn : before.length using Nat.strong_induction_on generalizing before with
  | _ n ih =>
    by_cases hfeed : lineFeed ∈ before
    · obtain ⟨first, others, rfl, hfirst⟩ := List.eq_append_cons_of_mem hfeed
      have last : ∀ b ∈ others.getLast?, b = lineFeed := by
        cases others with
        | nil => simp
        | cons c others =>
          intro b hb
          rw [List.getLast?_append_cons, List.getLast?_cons_cons] at h
          exact h b hb
      have shorter : others.length < n := by
        rw [← hn, List.length_append, List.length_cons]
        omega
      obtain ⟨above, hlength, hlines⟩ := ih others.length shorter others last rfl
      refine ⟨dropReturn (lossy first) :: above, ?_, ?_⟩
      · rw [List.length_cons, hlength, List.count_append, List.count_cons_self, List.count_eq_zero.2 hfirst, Nat.zero_add]
      · rw [List.append_assoc, List.cons_append, lossy_feed, lines_feed (feed_notMem_lossy hfirst), hlines, List.cons_append]
    · cases hlast : before.getLast? with
      | none =>
        obtain rfl := List.getLast?_eq_none_iff.1 hlast
        exact ⟨[], rfl, rfl⟩
      | some b => exact absurd (h b hlast ▸ List.mem_of_getLast? hlast) hfeed

theorem lines_of_lineOf {bytes before piece after : List UInt8} {k : Nat} {line : List Char}
    (h : LineOf bytes k before piece after) (ht : LineText piece after line) : (lines (lossy bytes))[k]? = some line := by
  obtain ⟨above, hlength, hlines⟩ := lines_before before (piece ++ after) h.start
  rw [h.count] at hlength
  have free := feed_notMem_lossy h.free
  rw [h.whole, hlines, ← hlength, List.getElem?_append_right le_rfl, Nat.sub_self]
  obtain ⟨rfl, hpiece, rfl⟩ | ⟨hafter, rfl⟩ := ht
  · have nonempty : (lossy piece).isEmpty = false := by simpa [lossy_eq_nil] using hpiece
    rw [List.append_nil, lines_last free, nonempty]
    rfl
  · obtain ⟨rest, rfl⟩ := h.after_cases.resolve_left hafter
    rw [lossy_feed, lines_feed free]
    rfl

theorem exists_lineOf {bytes : List UInt8} {k : Nat} {line : List Char} (h : (lines (lossy bytes))[k]? = some line) :
    ∃ before piece after, LineOf bytes k before piece after ∧ LineText piece after line := by
  induction k generalizing bytes with
  | zero =>
    by_cases hfeed : lineFeed ∈ bytes
    · obtain ⟨first, rest, rfl, hfirst⟩ := List.eq_append_cons_of_mem hfeed
      rw [lossy_feed, lines_feed (feed_notMem_lossy hfirst)] at h
      refine ⟨[], first, lineFeed :: rest, ⟨rfl, rfl, by simp, hfirst, by simp⟩, .inr ⟨by simp, ?_⟩⟩
      exact (Option.some.inj h).symm
    · rw [lines_last (feed_notMem_lossy hfeed)] at h
      split_ifs at h with hempty
      · cases h
      · refine ⟨[], bytes, [], ⟨by simp, rfl, by simp, hfeed, by simp⟩, .inl ⟨rfl, ?_, (Option.some.inj h).symm⟩⟩
        rintro rfl
        exact hempty rfl
  | succ k ih =>
    by_cases hfeed : lineFeed ∈ bytes
    · obtain ⟨first, rest, rfl, hfirst⟩ := List.eq_append_cons_of_mem hfeed
      rw [lossy_feed, lines_feed (feed_notMem_lossy hfirst), List.getElem?_cons_succ] at h
      obtain ⟨before, piece, after, hline, htext⟩ := ih h
      exact ⟨_, piece, after, hline.later hfirst, htext⟩
    · rw [lines_last (feed_notMem_lossy hfeed)] at h
      split_ifs at h
      · cases h
      · cases h

/-- **Lines of the text are the lines of its bytes**, each decoded on its own. -/
theorem lines_lossy {bytes : List UInt8} {k : Nat} {line : List Char} : (lines (lossy bytes))[k]? = some line ↔
    ∃ before piece after, LineOf bytes k before piece after ∧ LineText piece after line :=
  ⟨exists_lineOf, fun ⟨_, _, _, hline, htext⟩ => lines_of_lineOf hline htext⟩

/-- a byte that is no text, with a carriage return in the line before it and one at its own end -/
example : lines (lossy [97, 13, 98, 13, 10, 0xFF, 13]) = [['a', '\r', 'b'], [replacement, '\r']] := by decide

end Text

end CallLint
