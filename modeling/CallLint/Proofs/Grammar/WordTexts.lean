/-
The texts of words. A character is read from the bytes of its code (`Code`), as many as its UTF-8 form has, and what
follows them does not matter; so the bytes that some characters at the front take have these characters
(`glyphs_take`). What stands between the ends of a word is therefore the word itself: `Source.WordAt.isWord`.

No character of a word means anything else in the name of a type: a point, a bracket or a blank (`isWordPart_plain`).
-/
import CallLint.Proofs.Grammar.NameWords

namespace CallLint

open Text (Glyph)

namespace Text

/-! ## Codes of characters -/

/-- the well-formed code of a character -/
inductive Code : List UInt8 → Glyph → Prop
  | one {a : UInt8} : a < 0x80 → Code [a] ⟨Char.ofNat a.toNat, 1⟩
  | two {a b : UInt8} : 0xC2 ≤ a → a ≤ 0xDF → isContinuation b = true →
    Code [a, b] ⟨Char.ofNat (a.toNat % 0x20 * 0x40 + continuationBits b), 2⟩
  | three {a b c : UInt8} : 0xE0 ≤ a → a < 0xF0 → secondByteFits a b = true → isContinuation c = true →
    Code [a, b, c] ⟨Char.ofNat (a.toNat % 0x10 * 0x1000 + continuationBits b * 0x40 + continuationBits c), 3⟩
  | four {a b c d : UInt8} : 0xF0 ≤ a → a ≤ 0xF4 → secondByteFits a b = true → isContinuation c = true →
    isContinuation d = true →
    Code [a, b, c, d] ⟨Char.ofNat (a.toNat % 0x08 * 0x40000 + continuationBits b * 0x1000 + continuationBits c * 0x40
      + continuationBits d), 4⟩

theorem Code.length {code : List UInt8} {g : Glyph} (h : Code code g) : code.length = g.width := by
  cases h <;> rfl

theorem readGlyph_append {code : List UInt8} {g : Glyph} (h : Code code g) (rest : List UInt8) :
    readGlyph (code ++ rest) = some g := by
  cases h with
  | one ha => simp [readGlyph, ha]
  | @two a b hlow hhigh hb =>
    have large : ¬a < 0x80 := by grind
    simp [readGlyph, large, hlow, hhigh, hb]
  | @three a b c hlow hhigh hb hc =>
    have large : ¬a < 0x80 := by grind
    have notTwo : ¬a ≤ 0xDF := by grind
    have fits : a ≤ 0xF4 := by grind
    simp [readGlyph, large, notTwo, hlow, hhigh, fits, hb, hc]
  | @four a b c d hlow hhigh hb hc hd =>
    have large : ¬a < 0x80 := by grind
    have notTwo : ¬a ≤ 0xDF := by grind
    have fits : 0xE0 ≤ a := by grind
    have notThree : ¬a < 0xF0 := by grind
    simp [readGlyph, large, notTwo, notThree, hhigh, fits, hb, hc, hd]

theorem exists_code {bytes : List UInt8} {g : Glyph} (h : readGlyph bytes = some g) :
    ∃ code rest, bytes = code ++ rest ∧ Code code g := by
  rcases bytes with _ | ⟨a, rest⟩
  · cases h
  rw [readGlyph.eq_def] at h
  dsimp only at h
  split at h
  · cases h
    exact ⟨[a], rest, rfl, .one ‹_›⟩
  split at h
  · cases h
  rename_i b rest
  split at h
  · rename_i lead
    rw [Bool.and_eq_true, decide_eq_true_eq, decide_eq_true_eq] at lead
    split at h
    · cases h
      exact ⟨[a, b], rest, rfl, .two lead.1 lead.2 ‹_›⟩
    · cases h
  split at h
  · rename_i lead
    rw [Bool.and_eq_true, Bool.and_eq_true, decide_eq_true_eq, decide_eq_true_eq] at lead
    split at h
    · cases h
    rename_i c rest
    split at h
    · cases h
    rename_i hc
    rw [Bool.not_eq_true, Bool.not_eq_false'] at hc
    split at h
    · cases h
      exact ⟨[a, b, c], rest, rfl, .three lead.1.1 ‹_› lead.2 hc⟩
    rename_i hlarge
    split at h
    · cases h
    rename_i d rest
    split at h
    · cases h
      exact ⟨[a, b, c, d], rest, rfl, .four (UInt8.not_lt.1 hlarge) lead.1.2 lead.2 hc ‹_›⟩
    · cases h
  · cases h

theorem utf8Size_ofNat {n : Nat} (h : n.isValidChar) :
    (Char.ofNat n).utf8Size = if n ≤ 0x7F then 1 else if n ≤ 0x7FF then 2 else if n ≤ 0xFFFF then 3 else 4 := by
  have value : (Char.ofNat n).val.toNat = n := by
    rw [Char.ofNat, dif_pos h]
    rfl
  simp only [Char.utf8Size, UInt32.le_iff_toNat_le, value]
  rfl

/-- what the second byte says of the first one, and where it lies -/
theorem secondByteFits_bounds {a b : UInt8} (h : secondByteFits a b = true) :
    (0x80 ≤ b.toNat ∧ b.toNat ≤ 0xBF) ∧ (a.toNat = 0xE0 → 0xA0 ≤ b.toNat) ∧ (a.toNat = 0xED → b.toNat ≤ 0x9F) ∧
      (a.toNat = 0xF0 → 0x90 ≤ b.toNat) ∧ (a.toNat = 0xF4 → b.toNat ≤ 0x8F) := by
  unfold secondByteFits isContinuation at h
  split_ifs at h <;>
    simp only [beq_iff_eq, ← UInt8.toNat_inj, Bool.and_eq_true, decide_eq_true_eq, UInt8.le_iff_toNat_le,
      UInt8.toNat_ofNat] at * <;>
    omega

theorem Code.size {code : List UInt8} {g : Glyph} (h : Code code g) : g.char.utf8Size = g.width := by
  have bits (b : UInt8) : continuationBits b < 0x40 := Nat.mod_lt _ (by decide)
  cases h with
  | @one a ha =>
    have ha : a.toNat < 0x80 := ha
    rw [utf8Size_ofNat (.inl (by omega)), if_pos (by omega)]
  | @two a b hlow hhigh hb =>
    have hlow : 0xC2 ≤ a.toNat := hlow
    have hhigh : a.toNat ≤ 0xDF := hhigh
    have := bits b
    rw [utf8Size_ofNat (.inl (by omega)), if_neg (by omega), if_pos (by omega)]
  | @three a b c hlow hhigh hb hc =>
    have hlow : 0xE0 ≤ a.toNat := hlow
    have hhigh : a.toNat < 0xF0 := hhigh
    have second := secondByteFits_bounds hb
    have := bits c
    have high : continuationBits b = b.toNat - 0x80 := by
      unfold continuationBits
      omega
    rw [utf8Size_ofNat, if_neg (by omega), if_neg (by omega), if_pos (by omega)]
    unfold Nat.isValidChar
    omega
  | @four a b c d hlow hhigh hb hc hd =>
    have hlow : 0xF0 ≤ a.toNat := hlow
    have hhigh : a.toNat ≤ 0xF4 := hhigh
    have second := secondByteFits_bounds hb
    have := bits c
    have := bits d
    have high : continuationBits b = b.toNat - 0x80 := by
      unfold continuationBits
      omega
    rw [utf8Size_ofNat, if_neg (by omega), if_neg (by omega), if_neg (by omega)]
    unfold Nat.isValidChar
    omega

/-- a character takes no more bytes than there are -/
theorem readGlyph_width_le {bytes : List UInt8} {g : Glyph} (h : readGlyph bytes = some g) : g.width ≤ bytes.length := by
  obtain ⟨code, more, rfl, hcode⟩ := exists_code h
  rw [List.length_append, ← hcode.length]
  exact Nat.le_add_right _ _

theorem firstGlyph_width (b : UInt8) (rest : List UInt8) : 1 ≤ (firstGlyph (b :: rest)).width := by
  unfold firstGlyph
  cases hread : readGlyph (b :: rest) with
  | none => exact le_rfl
  | some g => exact readGlyph_width hread

/-- the start of a text has the characters of the text -/
theorem firstGlyph_take (b : UInt8) (rest : List UInt8) {m : Nat} (h : (firstGlyph (b :: rest)).width ≤ m) :
    firstGlyph ((b :: rest).take m) = firstGlyph (b :: rest) := by
  unfold firstGlyph at h ⊢
  cases hread : readGlyph (b :: rest) with
  | some g =>
    rw [hread, Option.getD_some] at h
    obtain ⟨code, more, hbytes, hcode⟩ := exists_code hread
    rw [hbytes, List.take_append, List.take_of_length_le (hcode.length.trans_le h), readGlyph_append hcode]
  | none =>
    -- what can be read of the start can be read of the whole
    cases hstart : readGlyph ((b :: rest).take m) with
    | none => rfl
    | some g =>
      obtain ⟨code, more, hbytes, hcode⟩ := exists_code hstart
      have whole : b :: rest = code ++ (more ++ (b :: rest).drop m) := by
        rw [← List.append_assoc, ← hbytes, List.take_append_drop]
      rw [whole, readGlyph_append hcode] at hread
      cases hread

/-- bytes that some characters take -/
def width (gs : List Glyph) : Nat :=
  (gs.map (·.width)).sum

theorem glyphs_take (n : Nat) (bytes : List UInt8) :
    glyphs (bytes.take (width ((glyphs bytes).take n))) = (glyphs bytes).take n := by
  induction n generalizing bytes with
  | zero => simp [width, glyphs, glyphsFrom]
  | succ n ih =>
    cases bytes with
    | nil => simp [glyphs, glyphsFrom]
    | cons b rest =>
      have first := firstGlyph_width b rest
      generalize hg : firstGlyph (b :: rest) = g at first
      rw [glyphs_cons, hg, List.take_succ_cons]
      have parts : width (g :: (glyphs ((b :: rest).drop g.width)).take n) =
          g.width + width ((glyphs ((b :: rest).drop g.width)).take n) := by simp [width]
      rw [parts]
      generalize hw : width ((glyphs ((b :: rest).drop g.width)).take n) = w
      obtain ⟨m, hm⟩ : ∃ m, g.width + w = m + 1 := ⟨g.width + w - 1, by omega⟩
      have start : firstGlyph (b :: rest.take m) = g := by
        rw [← List.take_succ_cons, ← hm, firstGlyph_take b rest (hg ▸ Nat.le_add_right _ _), hg]
      rw [hm, List.take_succ_cons, glyphs_cons, start, ← List.take_succ_cons, ← hm, List.drop_take,
        Nat.add_sub_cancel_left, ← ih, hw]

/-- a character that is no replacement is read from as many bytes as its code has -/
theorem glyphs_size (bytes : List UInt8) : ∀ g ∈ glyphs bytes, g.char ≠ replacement → g.char.utf8Size = g.width := by
  induction hn : bytes.length using Nat.strong_induction_on generalizing bytes with
  | _ n ih =>
    cases bytes with
    | nil => simp [glyphs, glyphsFrom]
    | cons b rest =>
      have first := firstGlyph_width b rest
      have shorter : ((b :: rest).drop (firstGlyph (b :: rest)).width).length < n := by
        rw [List.length_drop, hn]
        rw [List.length_cons] at hn
        omega
      intro g hg hchar
      rw [glyphs_cons] at hg
      rcases List.mem_cons.1 hg with rfl | hg
      · unfold firstGlyph at hchar ⊢
        cases hread : readGlyph (b :: rest) with
        | none => exact absurd (by rw [hread]; rfl) hchar
        | some g =>
          obtain ⟨code, more, -, hcode⟩ := exists_code hread
          exact hcode.size
      · exact ih _ shorter _ rfl g hg hchar

end Text

/-! ## Words -/

theorem Lexeme.forall_take_run {p : Char → Bool} (gs : List Glyph) : ∀ g ∈ gs.take (Lexeme.run p gs), p g.char = true := by
  induction gs with
  | nil => simp
  | cons g gs ih =>
    rw [Lexeme.run]
    split_ifs with hp
    · rw [List.take_succ_cons]
      exact List.forall_mem_cons.2 ⟨hp, ih⟩
    · simp

/-- the text is one word -/
def Lexeme.IsWord (text : List Char) : Prop :=
  text ≠ [] ∧ ∀ c ∈ text, Lexeme.isWordPart c = true

theorem Cursor.advance_offset (c : Cursor) (n : Nat) : (c.advance n).offset = c.offset + Text.width (c.rest.take n) := by
  rw [advance, Text.width, List.sum_eq_foldl, List.foldl_map]
  have from_ (gs : List Glyph) (k : Nat) : gs.foldl (fun o g => o + g.width) (c.offset + k) =
      c.offset + gs.foldl (fun o g => o + g.width) k := by
    induction gs generalizing k with
    | nil => rfl
    | cons g gs ih => rw [List.foldl_cons, List.foldl_cons, Nat.add_assoc, ih]
  exact from_ _ 0

/-- what stands between the ends of a word is the word -/
theorem Source.WordAt.isWord {s : Source} {start stop : Nat} (h : s.WordAt start stop) :
    Lexeme.IsWord (s.slice start stop).toList := by
  obtain ⟨c, hc, hword, rfl, rfl⟩ := h
  let gs := c.rest.take (Lexeme.word c.rest)
  have bytes : (s.bytes.extract c.offset (c.advance (Lexeme.word c.rest)).offset).toList =
      (s.bytes.toList.drop c.offset).take (Text.width gs) := by
    rw [Array.toList_extract, List.extract_eq_take_drop, c.advance_offset, Nat.add_sub_cancel_left]
  have glyphs : Text.glyphs ((s.bytes.toList.drop c.offset).take (Text.width gs)) = gs := by
    have h := Text.glyphs_take (Lexeme.word c.rest) (s.bytes.toList.drop c.offset)
    rwa [← show c.rest = _ from hc] at h
  have starts : Lexeme.nextIs Lexeme.isWordStart c.rest = true ∧
      Lexeme.word c.rest = Lexeme.run Lexeme.isWordPart c.rest := by
    unfold Lexeme.word at hword ⊢
    split_ifs at hword ⊢ with hnext
    · exact ⟨hnext, rfl⟩
    · exact absurd rfl hword
  have parts : ∀ g ∈ gs, Lexeme.isWordPart g.char = true := by
    intro g hg
    exact Lexeme.forall_take_run c.rest g (starts.2 ▸ hg)
  have nonempty : gs ≠ [] := by
    intro hnil
    rcases List.take_eq_nil_iff.1 hnil with hzero | hrest
    · exact hword hzero
    · rw [hrest] at starts
      cases starts.1
  have whole : gs.all (fun g => g.char.utf8Size == g.width) = true := by
    refine List.all_eq_true.2 fun g hg => beq_iff_eq.2 ?_
    refine Text.glyphs_size (s.bytes.toList.drop c.offset) g ?_ fun hchar => ?_
    · rw [← show c.rest = _ from hc]
      exact List.mem_of_mem_take hg
    · have part := parts g hg
      rw [hchar] at part
      exact absurd part (by decide +kernel)
  rw [Source.slice, bytes, Text.decode?, glyphs, if_pos whole, Option.getD_some, String.toList_ofList]
  refine ⟨by simpa using nonempty, fun ch hch => ?_⟩
  obtain ⟨g, hg, rfl⟩ := List.mem_map.1 hch
  exact parts g hg

/-- the code points of blanks -/
def Text.blanks : List Nat :=
  [9, 10, 11, 12, 13, 0x20, 0x85, 0xA0, 0x1680, 0x2000, 0x2001, 0x2002, 0x2003, 0x2004, 0x2005, 0x2006, 0x2007, 0x2008,
    0x2009, 0x200A, 0x2028, 0x2029, 0x202F, 0x205F, 0x3000]

theorem Text.mem_blanks {c : Char} (h : Text.isBlank c = true) : c.toNat ∈ Text.blanks := by
  simp only [Text.isBlank, Bool.or_eq_true, Bool.and_eq_true, decide_eq_true_eq, beq_iff_eq] at h
  simp only [Text.blanks, List.mem_cons, List.not_mem_nil, or_false]
  omega

/-- characters of words are no separators, no brackets and no blanks -/
theorem Lexeme.isWordPart_plain {c : Char} (h : Lexeme.isWordPart c = true) :
    c ∉ ['.', '<', '>', '[', ']'] ∧ Text.isBlank c = false := by
  have signs : ['.', '<', '>', '[', ']'].all (fun c => !Lexeme.isWordPart c) = true := by decide +kernel
  have blanks : ∀ n ∈ Text.blanks, Lexeme.isWordPart (Char.ofNat n) = false := by decide +kernel
  constructor
  · intro hc
    have sign := List.all_eq_true.1 signs c hc
    rw [h] at sign
    cases sign
  · rw [Bool.eq_false_iff]
    intro hc
    have none := blanks c.toNat (Text.mem_blanks hc)
    rw [Char.ofNat_toNat, h] at none
    cases none

end CallLint
