/-
Characters as they are written between quotes: as they are, or in one of the forms of escapes. `Encodes quote cs text`
says that the text writes the characters; it has one case for each form. An octal escape goes on as long as the digits
that follow it make one, so what comes after it matters (`OctalDigits`).

`Literal.escapes_decoded`: a string literal is decoded as the characters that are written in it, and a character literal
as the one that is written in it and as nothing when there are none or several.
-/
import CallLint.Proofs.Entries
import CallLint.Proofs.Literals.Integers
import CallLint.Source.Literal.Quoted

namespace CallLint

/-! ## Written characters -/

/-- letters and signs after a backslash, with what they stand for -/
def letterEscapes : List (Char × Char) :=
  [('b', '\x08'), ('t', '\t'), ('n', '\n'), ('f', '\x0c'), ('r', '\r'), ('s', ' '), ('"', '"'), ('\'', '\''),
    ('\\', '\\')]

/-- digits of an octal escape: up to three, for a value up to 0377 -/
structure OctalDigits (ds : List Nat) : Prop where
  nonempty : ds ≠ []
  length_le : ds.length ≤ 3
  inRadix : ∀ d ∈ ds, d < 8
  value_le : Nat.ofDigits 8 ds.reverse ≤ 255

/-- the text between two quotes writes the characters -/
inductive Encodes (quote : Char) : List Char → List Char → Prop
  | nil : Encodes quote [] []
  /-- a character as it is -/
  | plain {c : Char} {cs text : List Char} : c ≠ '\\' → c ≠ '\n' → c ≠ quote →
    Encodes quote cs text → Encodes quote (c :: cs) (c :: text)
  | letter {e c : Char} {cs text : List Char} : (e, c) ∈ letterEscapes →
    Encodes quote cs text → Encodes quote (c :: cs) ('\\' :: e :: text)
  /-- a number in octal digits; what follows it is no digit that could be one more of them -/
  | octal {ds : List Nat} {c : Char} {digits cs text : List Char} : OctalDigits ds →
    List.Forall₂ Text.IsDigit ds digits → Nat.ofDigits 8 ds.reverse = c.toNat →
    (∀ d next rest, text = next :: rest → Text.IsDigit d next → ¬ OctalDigits (ds ++ [d])) →
    Encodes quote cs text → Encodes quote (c :: cs) ('\\' :: (digits ++ text))
  /-- a number in four hexadecimal digits, after any letters `u` -/
  | unicode {ds : List Nat} {c : Char} {digits cs text : List Char} (more : Nat) : ds.length = 4 → (∀ d ∈ ds, d < 16) →
    List.Forall₂ Text.IsDigit ds digits → Nat.ofDigits 16 ds.reverse = c.toNat →
    Encodes quote cs text → Encodes quote (c :: cs) ('\\' :: 'u' :: (List.replicate more 'u' ++ (digits ++ text)))
  /-- a line that goes on -/
  | continuation {cs text : List Char} : Encodes quote cs text → Encodes quote cs ('\\' :: '\n' :: text)

variable {quote : Char} {cs text : List Char}

/-! ## One escape -/

theorem charOfNat?_toNat (c : Char) : charOfNat? c.toNat = some c := by
  have valid : c.toNat.isValidChar := c.valid
  rw [charOfNat?, dif_pos valid]
  rfl

theorem letterEscape?_of_mem {e c : Char} (h : (e, c) ∈ letterEscapes) : letterEscape? e = some c := by
  have all : ∀ p ∈ letterEscapes, letterEscape? p.1 = some p.2 := by decide
  exact all _ h

/-- a digit is no letter of an escape -/
theorem letterEscape?_octal {d : Nat} {c : Char} (h : Text.IsDigit d c) (hd : d < 8) :
    letterEscape? c = none ∧ c ≠ '\n' ∧ c ≠ 'u' := by
  have upper : ∀ d : Fin 8, (Nat.digitChar d).toUpper = Nat.digitChar d := by decide
  have all : ∀ d : Fin 8, letterEscape? (Nat.digitChar d) = none ∧ Nat.digitChar d ≠ '\n' ∧ Nat.digitChar d ≠ 'u' := by
    decide
  obtain rfl : c = Nat.digitChar d := by
    rcases h with rfl | rfl
    · rfl
    · exact upper ⟨d, hd⟩
  exact all ⟨d, hd⟩

/-- the digits of an octal escape are taken, and no more when no more are left to take or none follows -/
theorem takeOctal_digits {ds : List Nat} {digits : List Char} (h : List.Forall₂ Text.IsDigit ds digits)
    (hds : ∀ d ∈ ds, d < 8) {more : Nat} (hmore : ds.length ≤ more)
    (hend : ds.length < more → ∀ c rest, text = c :: rest → Text.digitValue? 8 c = none) (n : Nat) :
    takeOctal more n (digits ++ text) = (n * 8 ^ ds.length + Nat.ofDigits 8 ds.reverse, text) := by
  induction h generalizing more n with
  | nil =>
    cases more with
    | zero => simp [takeOctal]
    | succ more =>
      cases text with
      | nil => simp [takeOctal]
      | cons c rest => simp [takeOctal, hend (Nat.succ_pos more) c rest rfl]
  | @cons d c ds digits hc _ ih =>
    obtain ⟨hd, hds⟩ := List.forall_mem_cons.1 hds
    obtain ⟨more, rfl⟩ : ∃ k, more = k + 1 := Nat.exists_eq_succ_of_ne_zero (by simp at hmore; omega)
    rw [List.length_cons] at hmore hend
    rw [List.cons_append, takeOctal, Text.digitValue?_of_isDigit hc hd (by decide)]
    dsimp only
    rw [ih hds (by omega) fun hlt => hend (by omega), List.reverse_cons, Nat.ofDigits_append, Nat.ofDigits_singleton,
      List.length_reverse, List.length_cons]
    congr 1
    ring

/-- after a first digit up to 3 there is room for two more, and for one more after a greater one -/
theorem octalDigits_cons {d : Nat} {ds : List Nat} :
    OctalDigits (d :: ds) ↔ (∀ e ∈ d :: ds, e < 8) ∧ ds.length ≤ if d ≤ 3 then 2 else 1 := by
  have value : Nat.ofDigits 8 (d :: ds).reverse = Nat.ofDigits 8 ds.reverse + 8 ^ ds.length * d := by
    rw [List.reverse_cons, Nat.ofDigits_append, Nat.ofDigits_singleton, List.length_reverse]
  have bound (h : ∀ e ∈ ds, e < 8) : Nat.ofDigits 8 ds.reverse < 8 ^ ds.length := by
    have below := Nat.ofDigits_lt_base_pow_length (b := 8) (l := ds.reverse) (by decide)
      fun e he => h e (List.mem_reverse.1 he)
    rwa [List.length_reverse] at below
  constructor
  · rintro ⟨-, length_le, inRadix, value_le⟩
    refine ⟨inRadix, ?_⟩
    rw [value] at value_le
    rw [List.length_cons] at length_le
    split_ifs with hd
    · omega
    · by_contra hlong
      have two : ds.length = 2 := by omega
      rw [two] at value_le
      omega
  · rintro ⟨inRadix, length_le⟩
    obtain ⟨hd, hds⟩ := List.forall_mem_cons.1 inRadix
    have below := bound hds
    refine ⟨List.cons_ne_nil _ _, ?_, inRadix, ?_⟩
    · rw [List.length_cons]
      split_ifs at length_le <;> omega
    · rw [value]
      split_ifs at length_le with hsmall
      · obtain h | h | h : ds.length = 0 ∨ ds.length = 1 ∨ ds.length = 2 := by omega
        all_goals
          rw [h] at below ⊢
          omega
      · obtain h | h : ds.length = 0 ∨ ds.length = 1 := by omega
        all_goals
          rw [h] at below ⊢
          omega

theorem isDigit_of_octal {d : Nat} {c : Char} (h : Text.digitValue? 8 c = some d) : Text.IsDigit d c ∧ d < 8 := by
  obtain ⟨hvalue, hd⟩ := Option.filter_eq_some_iff.1 (show Option.filter _ _ = some d from h)
  have small : d < 8 := of_decide_eq_true hd
  refine ⟨.inl ?_, small⟩
  split_ifs at hvalue with hdigit
  · obtain ⟨low, high⟩ := hdigit
    have hlow : 48 ≤ c.toNat := low
    have sum : 48 + d = c.toNat := by
      have := Option.some.inj hvalue
      change c.toNat - 48 = d at this
      omega
    rw [← Char.toNat_inj, Nat.toNat_digitChar_of_lt_ten (by omega)]
    omega
  all_goals
    have := Option.some.inj hvalue
    omega

/-- an octal escape and what follows it -/
theorem takeEscape?_octal {ds : List Nat} {c : Char} {digits : List Char} (h : OctalDigits ds)
    (hdigits : List.Forall₂ Text.IsDigit ds digits) (hvalue : Nat.ofDigits 8 ds.reverse = c.toNat)
    (hend : ∀ d next rest, text = next :: rest → Text.IsDigit d next → ¬ OctalDigits (ds ++ [d])) :
    takeEscape? (digits ++ text) = some ([c], text) := by
  cases hdigits with
  | nil => exact absurd rfl h.nonempty
  | @cons d first ds digits hfirst hdigits =>
    obtain ⟨inRadix, room⟩ := octalDigits_cons.1 h
    obtain ⟨hd, hds⟩ := List.forall_mem_cons.1 inRadix
    obtain ⟨notLetter, notFeed, notU⟩ := letterEscape?_octal hfirst hd
    have taken : takeOctal (if d ≤ 3 then 2 else 1) d (digits ++ text) =
        (d * 8 ^ ds.length + Nat.ofDigits 8 ds.reverse, text) := by
      refine takeOctal_digits hdigits hds room (fun hlt next rest htext => ?_) d
      rw [Option.eq_none_iff_forall_ne_some]
      intro e he
      obtain ⟨digit, small⟩ := isDigit_of_octal he
      have another : OctalDigits (d :: (ds ++ [e])) := by
        refine octalDigits_cons.2 ⟨?_, by rwa [List.length_append, List.length_singleton]⟩
        simp only [List.mem_cons, List.mem_append, List.not_mem_nil, or_false]
        rintro x (rfl | hx | rfl)
        · exact hd
        · exact hds x hx
        · exact small
      exact hend e next rest htext digit another
    have value : d * 8 ^ ds.length + Nat.ofDigits 8 ds.reverse = c.toNat := by
      rw [← hvalue, List.reverse_cons, Nat.ofDigits_append, Nat.ofDigits_singleton, List.length_reverse]
      ring
    rw [List.cons_append, takeEscape?, notLetter]
    dsimp only
    rw [if_neg notFeed, if_neg notU, Text.digitValue?_of_isDigit hfirst hd (by decide)]
    dsimp only
    rw [taken]
    dsimp only
    rw [value, charOfNat?_toNat]
    rfl

theorem takeEscape?_letter {e c : Char} (h : (e, c) ∈ letterEscapes) : takeEscape? (e :: text) = some ([c], text) := by
  rw [takeEscape?, letterEscape?_of_mem h]

theorem takeEscape?_continuation : takeEscape? ('\n' :: text) = some ([], text) :=
  rfl

/-- an escape in hexadecimal digits and what follows it -/
theorem takeEscape?_unicode {ds : List Nat} {c : Char} {digits : List Char} (more : Nat) (hlength : ds.length = 4)
    (hds : ∀ d ∈ ds, d < 16) (hdigits : List.Forall₂ Text.IsDigit ds digits)
    (hvalue : Nat.ofDigits 16 ds.reverse = c.toNat) :
    takeEscape? ('u' :: (List.replicate more 'u' ++ (digits ++ text))) = some ([c], text) := by
  have four : digits.length = 4 := hdigits.length_eq.symm.trans hlength
  have hne : ds ≠ [] := by
    rintro rfl
    cases hlength
  have value : Text.digitsValue? 16 digits = some c.toNat :=
    hvalue ▸ Text.digitsValue?_of_forall₂ hdigits hne hds le_rfl
  have first : ∀ next rest, digits = next :: rest → next ≠ 'u' ∧ next ≠ '+' := by
    rintro next rest rfl
    obtain ⟨d, ds', hd, -, rfl⟩ := List.forall₂_cons_right_iff.1 hdigits
    have small : d < 16 := hds d List.mem_cons_self
    exact ⟨hd.ne small nofun, hd.ne small nofun⟩
  have start : (List.replicate more 'u' ++ (digits ++ text)).dropWhile (· == 'u') = digits ++ text := by
    rw [List.dropWhile_append_of_pos (by simp)]
    cases digits with
    | nil => cases four
    | cons next rest => exact List.dropWhile_cons_of_neg (by simpa using (first next rest rfl).1)
  have taken : takeUnicode? (digits ++ text) = some (c, text) := by
    rw [takeUnicode?, List.take_left' four, List.drop_left' four]
    split
    · rename_i rest
      exact absurd rfl (first '+' rest rfl).2
    · rw [value, Option.bind_some, charOfNat?_toNat]
      rfl
  have notLetter : letterEscape? 'u' = none := rfl
  rw [takeEscape?, notLetter]
  dsimp only
  rw [if_neg (by decide), if_pos rfl, start, taken]
  rfl

/-! ## All characters -/

/-- one escape after the other -/
theorem unescapeFrom_escape {fuel : Nat} {escape decoded rest cs : List Char}
    (h : takeEscape? escape = some (decoded, rest)) (hrest : unescapeFrom fuel rest = some cs) :
    unescapeFrom (fuel + 1) ('\\' :: escape) = some (decoded ++ cs) := by
  rw [unescapeFrom, if_pos rfl, h]
  dsimp only
  rw [hrest]
  rfl

/-- what is written is read with at least as many steps as there are characters -/
theorem Encodes.unescapeFrom (h : Encodes quote cs text) {fuel : Nat} (hfuel : text.length ≤ fuel) :
    unescapeFrom fuel text = some cs := by
  -- the first character is there, so there is a step for it
  have step {c : Char} {text : List Char} {fuel : Nat} (h : (c :: text).length ≤ fuel) :
      ∃ k, fuel = k + 1 ∧ text.length ≤ k :=
    ⟨fuel - 1, by rw [List.length_cons] at h; omega, by rw [List.length_cons] at h; omega⟩
  induction h generalizing fuel with
  | nil => cases fuel <;> rfl
  | plain notBackslash _ _ _ ih =>
    obtain ⟨k, rfl, hk⟩ := step hfuel
    rw [CallLint.unescapeFrom, if_neg notBackslash, ih hk]
    rfl
  | letter hmem _ ih =>
    obtain ⟨k, rfl, hk⟩ := step hfuel
    exact unescapeFrom_escape (takeEscape?_letter hmem) (ih (Nat.le_of_succ_le hk))
  | octal hds hdigits hvalue hend _ ih =>
    obtain ⟨k, rfl, hk⟩ := step hfuel
    rw [List.length_append] at hk
    exact unescapeFrom_escape (takeEscape?_octal hds hdigits hvalue hend) (ih (by omega))
  | unicode more hlength hds hdigits hvalue _ ih =>
    obtain ⟨k, rfl, hk⟩ := step hfuel
    rw [List.length_cons, List.length_append, List.length_append] at hk
    exact unescapeFrom_escape (takeEscape?_unicode more hlength hds hdigits hvalue) (ih (by omega))
  | continuation _ ih =>
    obtain ⟨k, rfl, hk⟩ := step hfuel
    exact unescapeFrom_escape takeEscape?_continuation (ih (Nat.le_of_succ_le hk))

theorem Encodes.unescape (h : Encodes quote cs text) : unescape text = some cs :=
  h.unescapeFrom le_rfl

/-! ## Quoted texts -/

/-- no quote stands at the front of what is written -/
theorem Encodes.head_ne (h : Encodes quote cs text) (hq : quote ≠ '\\') {c : Char} {rest : List Char}
    (ht : text = c :: rest) : c ≠ quote := by
  cases h with
  | nil => cases ht
  | plain _ _ notQuote _ => exact (List.cons_eq_cons.1 ht).1 ▸ notQuote
  | letter | octal | unicode | continuation => exact (List.cons_eq_cons.1 ht).1 ▸ hq.symm

/-- every sequence of characters can be written between double quotes, and between single quotes -/
theorem exists_encodes (hq : (quote, quote) ∈ letterEscapes) (cs : List Char) : ∃ text, Encodes quote cs text := by
  induction cs with
  | nil => exact ⟨[], .nil⟩
  | cons c cs ih =>
    obtain ⟨text, written⟩ := ih
    by_cases hbackslash : c = '\\'
    · exact ⟨_, .letter (hbackslash ▸ (by decide : ('\\', '\\') ∈ letterEscapes)) written⟩
    by_cases hfeed : c = '\n'
    · exact ⟨_, .letter (hfeed ▸ (by decide : ('n', '\n') ∈ letterEscapes)) written⟩
    by_cases hquote : c = quote
    · exact ⟨_, .letter (hquote ▸ hq) written⟩
    exact ⟨_, .plain hbackslash hfeed hquote written⟩

/-- a text in quotes -/
def quoted (quote : Char) (text : List Char) : String :=
  String.ofList (quote :: (text ++ [quote]))

theorem between?_quoted (quote : Char) (text : List Char) : between? [quote] (quote :: (text ++ [quote])) = some text := by
  rw [between?, Text.dropLeading_eq_some.2 (List.singleton_append).symm, Option.bind_some]
  exact Text.dropTrailing_eq_some.2 rfl

/-- a string literal is no text block -/
theorem dropLeading_quoted (h : Encodes '"' cs text) : Text.dropLeading ['"', '"', '"'] ('"' :: (text ++ ['"'])) = none := by
  refine if_neg ?_
  cases text with
  | nil => decide
  | cons c rest =>
    have first : c ≠ '"' := h.head_ne (by decide) rfl
    simp [first.symm]

/-- **Characters between quotes are decoded as they were written**, whichever way each of them is written. All sequences
of characters can be written. -/
theorem Literal.escapes_decoded :
    (∀ cs text, Encodes '"' cs text → Literal.ofStringText? (quoted '"' text) = .ok (some (.str (String.ofList cs)))) ∧
    (∀ cs text, Encodes '\'' cs text →
      (∀ c, cs = [c] → Literal.ofCharacterText? (quoted '\'' text) = some (.char c)) ∧
      (cs.length ≠ 1 → Literal.ofCharacterText? (quoted '\'' text) = none)) ∧
    ∀ cs, (∃ text, Encodes '"' cs text) ∧ ∃ text, Encodes '\'' cs text := by
  refine ⟨fun cs text h => ?_, fun cs text h => ?_, fun cs => ⟨exists_encodes (by decide) cs, exists_encodes (by decide) cs⟩⟩
  · rw [Literal.ofStringText?, Literal.stringChars?, quoted, String.toList_ofList, dropLeading_quoted h]
    dsimp only
    rw [between?_quoted, Option.bind_some, h.unescape]
    rfl
  · have decoded : (between? ['\''] (quoted '\'' text).toList).bind CallLint.unescape = some cs := by
      rw [quoted, String.toList_ofList, between?_quoted, Option.bind_some, h.unescape]
    rw [Literal.ofCharacterText?, decoded]
    constructor
    · rintro c rfl
      rfl
    · intro hlength
      split
      · rename_i c hc
        cases hc
        exact absurd rfl hlength
      · rfl

/-- an octal escape of two digits with a third digit after it, a letter `u` written twice, and a line that goes on -/
theorem Literal.escapes_decoded_octal :
    let text : List Char := "\\477\\uu0041\\\n".toList
    Encodes '"' ['\'', '7', 'A'] text ∧ Encodes '\'' ['\'', '7', 'A'] text ∧ Encodes '\'' ['\t'] "\\11".toList ∧
      Literal.ofStringText? (quoted '"' text) = .ok (some (.str "'7A")) ∧
      Literal.ofCharacterText? (quoted '\'' text) = none ∧
      Literal.ofCharacterText? (quoted '\'' "\\11".toList) = some (.char '\t') := by
  intro text
  have quoteDigits : OctalDigits [4, 7] := ⟨by decide, by decide, by decide, by decide⟩
  have tabDigits : OctalDigits [1, 1] := ⟨by decide, by decide, by decide, by decide⟩
  have full (d : Nat) : ¬ OctalDigits ([4, 7] ++ [d]) := fun h => absurd (octalDigits_cons.1 h).2 (by decide : ¬ 2 ≤ 1)
  have hex : List.Forall₂ Text.IsDigit [0, 0, 4, 1] "0041".toList :=
    .cons (.inl rfl) (.cons (.inl rfl) (.cons (.inl rfl) (.cons (.inl rfl) .nil)))
  have octal : List.Forall₂ Text.IsDigit [4, 7] "47".toList := .cons (.inl rfl) (.cons (.inl rfl) .nil)
  have tab : List.Forall₂ Text.IsDigit [1, 1] "11".toList := .cons (.inl rfl) (.cons (.inl rfl) .nil)
  have written (quote : Char) (hq : '7' ≠ quote) : Encodes quote ['\'', '7', 'A'] text :=
    .octal quoteDigits octal rfl (fun d _ _ _ _ => full d)
      (.plain (by decide) (by decide) hq (.unicode 1 rfl (by decide) hex rfl (.continuation .nil)))
  have tabWritten : Encodes '\'' ['\t'] "\\11".toList := .octal tabDigits tab rfl (fun _ _ _ h => nomatch h) .nil
  obtain ⟨string, character, -⟩ := escapes_decoded
  exact ⟨written '"' (by decide), written '\'' (by decide), tabWritten, string _ _ (written '"' (by decide)),
    (character _ _ (written '\'' (by decide))).2 (by decide), (character _ _ tabWritten).1 '\t' rfl⟩

end CallLint
