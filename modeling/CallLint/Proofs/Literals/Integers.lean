/-
Integer literals as they are written: a lead that tells the radix, digits with any underscores between them, and the
suffix of long literals. The digits have a value in their radix (`IntegerLiteral.value`). A decimal literal denotes it,
and the others the number whose two's complement pattern it is (`IntegerLiteral.meaning?`).

`Literal.integer_decoded`: whatever is written is decoded as what it means, or as nothing when the value is too large. So
the pattern of a number of 32 bits, or of 64 bits with the suffix, gives the number back.
-/
import CallLint.Source.Literal.Integer
import Mathlib.Data.Nat.Digits.Defs
import Mathlib.Tactic

namespace CallLint

/-! ## Digits -/

namespace Text

/-- the character stands for the digit; a letter may be of either case -/
def IsDigit (d : Nat) (c : Char) : Prop :=
  c = Nat.digitChar d ∨ c = (Nat.digitChar d).toUpper

/-- digits as they are written, with any number of underscores between each two -/
inductive WrittenDigits : List Nat → List Char → Prop
  | last {d : Nat} {c : Char} : IsDigit d c → WrittenDigits [d] [c]
  | cons {d : Nat} {c : Char} (gap : Nat) {ds : List Nat} {text : List Char} :
    IsDigit d c → WrittenDigits ds text → WrittenDigits (d :: ds) (c :: (List.replicate gap '_' ++ text))

variable {radix d : Nat} {c : Char} {ds : List Nat} {text : List Char}

theorem digitValue?_sixteen (h : IsDigit d c) (hd : d < 16) : digitValue? 16 c = some d := by
  have all : ∀ d : Fin 16, digitValue? 16 (Nat.digitChar d) = some d.val ∧
      digitValue? 16 (Nat.digitChar d).toUpper = some d.val := by decide
  rcases h with rfl | rfl
  · exact (all ⟨d, hd⟩).1
  · exact (all ⟨d, hd⟩).2

theorem digitValue?_of_isDigit (h : IsDigit d c) (hd : d < radix) (hr : radix ≤ 16) : digitValue? radix c = some d := by
  have sixteen := digitValue?_sixteen h (hd.trans_le hr)
  rw [digitValue?] at sixteen ⊢
  obtain ⟨hvalue, -⟩ := Option.filter_eq_some_iff.1 sixteen
  exact Option.filter_eq_some_iff.2 ⟨hvalue, decide_eq_true hd⟩

/-- a digit is no character of another value -/
theorem IsDigit.ne (h : IsDigit d c) (hd : d < 16) {other : Char} (ho : digitValue? 16 other ≠ some d) : c ≠ other := by
  rintro rfl
  exact ho (digitValue?_sixteen h hd)

/-- without the underscores one character is left for each digit -/
theorem WrittenDigits.filter (h : WrittenDigits ds text) (hds : ∀ d ∈ ds, d < 16) :
    List.Forall₂ IsDigit ds (text.filter (· != '_')) := by
  have kept {d : Nat} {c : Char} (h : IsDigit d c) (hd : d < 16) : (c != '_') = true :=
    bne_iff_ne.2 (h.ne hd nofun)
  induction h with
  | last hc =>
    rw [List.filter_cons, if_pos (kept hc (hds _ List.mem_cons_self))]
    exact .cons hc .nil
  | cons gap hc _ ih =>
    obtain ⟨hd, hds⟩ := List.forall_mem_cons.1 hds
    rw [List.filter_cons, if_pos (kept hc hd), List.filter_append, List.filter_replicate, if_neg (by decide),
      List.nil_append]
    exact .cons hc (ih hds)

/-- the last character stands for one of the digits -/
theorem exists_last {cs : List Char} (h : List.Forall₂ IsDigit ds cs) (hne : ds ≠ []) :
    ∃ before c d, cs = before ++ [c] ∧ d ∈ ds ∧ IsDigit d c := by
  have backwards := List.forall₂_reverse_iff.2 h
  cases hds : ds.reverse with
  | nil => exact absurd (List.reverse_eq_nil_iff.1 hds) hne
  | cons d others =>
    rw [hds] at backwards
    obtain ⟨c, before, hc, -, hcs⟩ := List.forall₂_cons_left_iff.1 backwards
    refine ⟨before.reverse, c, d, ?_, List.mem_reverse.1 (hds ▸ List.mem_cons_self), hc⟩
    rw [← List.reverse_cons, ← hcs, List.reverse_reverse]

/-- digits can be written -/
theorem exists_writtenDigits (hne : ds ≠ []) : ∃ text, WrittenDigits ds text := by
  induction ds with
  | nil => exact absurd rfl hne
  | cons d ds ih =>
    cases ds with
    | nil => exact ⟨_, .last (.inl rfl)⟩
    | cons next ds =>
      obtain ⟨text, written⟩ := ih (List.cons_ne_nil _ _)
      exact ⟨_, .cons 0 (.inl rfl) written⟩

/-- digits after a number: each takes one more place -/
theorem digitsValueFrom?_of_forall₂ {cs : List Char} (h : List.Forall₂ IsDigit ds cs) (hds : ∀ d ∈ ds, d < radix)
    (hr : radix ≤ 16) (n : Nat) :
    digitsValueFrom? radix n cs = some (n * radix ^ ds.length + Nat.ofDigits radix ds.reverse) := by
  induction h generalizing n with
  | nil => simp [digitsValueFrom?]
  | @cons d c ds cs hc _ ih =>
    obtain ⟨hd, hds⟩ := List.forall_mem_cons.1 hds
    rw [digitsValueFrom?, digitValue?_of_isDigit hc hd hr, Option.bind_some, ih hds, List.reverse_cons,
      Nat.ofDigits_append, Nat.ofDigits_singleton, List.length_reverse, List.length_cons]
    congr 1
    ring

theorem digitsValue?_of_forall₂ {cs : List Char} (h : List.Forall₂ IsDigit ds cs) (hne : ds ≠ [])
    (hds : ∀ d ∈ ds, d < radix) (hr : radix ≤ 16) :
    digitsValue? radix cs = some (Nat.ofDigits radix ds.reverse) := by
  have nonempty : cs.isEmpty = false := by
    cases h with
    | nil => exact absurd rfl hne
    | cons => rfl
  rw [digitsValue?, nonempty, if_neg Bool.false_ne_true, digitsValueFrom?_of_forall₂ h hds hr, Nat.zero_mul, Nat.zero_add]

end Text

/-! ## Written literals -/

/-- how the radix of a literal is told -/
inductive IntegerForm where
  | binary
  | octal
  | decimal
  | hexadecimal
deriving DecidableEq, Repr

namespace IntegerForm

def radix : IntegerForm → Nat
  | binary => 2
  | octal => 8
  | decimal => 10
  | hexadecimal => 16

/-- what may stand before the digits -/
def leads : IntegerForm → List (List Char)
  | binary => [['0', 'b'], ['0', 'B']]
  | octal => [['0']]
  | decimal => [[]]
  | hexadecimal => [['0', 'x'], ['0', 'X']]

theorem radix_le (form : IntegerForm) : form.radix ≤ 16 := by
  cases form <;> decide

end IntegerForm

/-- what may stand after the digits -/
def longSuffixes (isLong : Bool) : List (List Char) :=
  if isLong then [['l'], ['L']] else [[]]

/-- digits in a form, the most significant first -/
structure IntegerLiteral where
  form : IntegerForm
  digits : List Nat
  isLong : Bool
  nonempty : digits ≠ []
  inRadix : ∀ d ∈ digits, d < form.radix
  /-- a decimal literal that starts with 0 is 0 -/
  noLeadingZero : form = .decimal → digits.head? = some 0 → digits = [0]

namespace IntegerLiteral

variable {l : IntegerLiteral} {text : List Char}

def value (l : IntegerLiteral) : Nat :=
  Nat.ofDigits l.form.radix l.digits.reverse

/-- the text writes the literal; underscores may stand before the first digit too -/
def Writes (l : IntegerLiteral) (text : List Char) : Prop :=
  ∃ lead ∈ l.form.leads, ∃ gap digits, ∃ suffix ∈ longSuffixes l.isLong,
    Text.WrittenDigits l.digits digits ∧ text = lead ++ List.replicate gap '_' ++ digits ++ suffix

/-- bits of the pattern that a literal denotes when it is not decimal -/
def patternBits (isLong : Bool) : Nat :=
  if isLong then 64 else 32

/-- the number that a literal denotes: the value of a decimal literal, and what a pattern of the value means as a two's
complement; none when the value is too large -/
def meaning? (l : IntegerLiteral) : Option Int :=
  if l.form = .decimal then
    if l.value < 2 ^ 63 then some l.value else none
  else if l.value < 2 ^ patternBits l.isLong then some (BitVec.ofNat (patternBits l.isLong) l.value).toInt
  else none

/-- the literal of a number, with no more digits than it takes -/
def ofNat (form : IntegerForm) (isLong : Bool) (n : Nat) : IntegerLiteral where
  form := form
  digits := if n = 0 then [0] else (Nat.digits form.radix n).reverse
  isLong := isLong
  nonempty := by
    split_ifs with hn
    · exact List.cons_ne_nil _ _
    · rwa [ne_eq, List.reverse_eq_nil_iff, Nat.digits_eq_nil_iff_eq_zero]
  inRadix d hd := by
    have two : 2 ≤ form.radix := by cases form <;> decide
    split_ifs at hd with hn
    · obtain rfl := List.mem_singleton.1 hd
      exact two.trans_lt' Nat.zero_lt_two
    · exact Nat.digits_lt_base two (List.mem_reverse.1 hd)
  noLeadingZero _ hzero := by
    split_ifs at hzero ⊢ with hn
    · rfl
    · rw [List.head?_reverse, List.getLast?_eq_getLast_of_ne_nil (Nat.digits_ne_nil_iff_ne_zero.2 hn)] at hzero
      exact absurd (Option.some.inj hzero) (Nat.getLast_digit_ne_zero _ hn)

theorem value_ofNat (form : IntegerForm) (isLong : Bool) (n : Nat) : (ofNat form isLong n).value = n := by
  rw [value, ofNat]
  dsimp only
  split_ifs with hn
  · simp [hn]
  · rw [List.reverse_reverse, Nat.ofDigits_digits]

/-- every literal can be written -/
theorem exists_writes (l : IntegerLiteral) : ∃ text, l.Writes text := by
  obtain ⟨digits, written⟩ := Text.exists_writtenDigits l.nonempty
  obtain ⟨lead, hlead⟩ : ∃ lead, lead ∈ l.form.leads := by
    cases l.form <;> exact ⟨_, List.mem_cons_self⟩
  obtain ⟨suffix, hsuffix⟩ : ∃ suffix, suffix ∈ longSuffixes l.isLong := by
    cases l.isLong <;> exact ⟨_, List.mem_cons_self⟩
  exact ⟨_, lead, hlead, 0, digits, suffix, hsuffix, written, rfl⟩

/-! ## Parts of a literal -/

theorem digit_lt (l : IntegerLiteral) : ∀ d ∈ l.digits, d < 16 :=
  fun d hd => (l.inRadix d hd).trans_le l.form.radix_le

/-- without underscores a literal is its lead, one character for each digit, and its suffix -/
theorem Writes.parts (h : l.Writes text) :
    ∃ lead ∈ l.form.leads, ∃ cs, ∃ suffix ∈ longSuffixes l.isLong,
      List.Forall₂ Text.IsDigit l.digits cs ∧ text.filter (· != '_') = lead ++ cs ++ suffix := by
  obtain ⟨lead, hlead, gap, digits, suffix, hsuffix, written, rfl⟩ := h
  have leadKept : lead.filter (· != '_') = lead := by
    have all : ∀ form : IntegerForm, ∀ lead ∈ form.leads, lead.filter (· != '_') = lead := by
      intro form
      cases form <;> decide
    exact all _ lead hlead
  have suffixKept : suffix.filter (· != '_') = suffix := by
    have all : ∀ isLong, ∀ suffix ∈ longSuffixes isLong, suffix.filter (· != '_') = suffix := by decide
    exact all _ suffix hsuffix
  refine ⟨lead, hlead, digits.filter (· != '_'), suffix, hsuffix, written.filter l.digit_lt, ?_⟩
  rw [List.filter_append, List.filter_append, List.filter_append, leadKept, suffixKept, List.filter_replicate,
    if_neg (by decide), List.append_nil]

/-- the suffix is told from the digits, none of which is the letter l -/
theorem splitLongSuffix_written {front cs suffix : List Char} (hcs : List.Forall₂ Text.IsDigit l.digits cs)
    (hs : suffix ∈ longSuffixes l.isLong) : splitLongSuffix (front ++ cs ++ suffix) = (front ++ cs, l.isLong) := by
  cases hlong : l.isLong with
  | true =>
    rw [hlong] at hs
    rcases List.mem_pair.1 hs with rfl | rfl <;> simp [splitLongSuffix]
  | false =>
    rw [hlong] at hs
    obtain rfl := List.mem_singleton.1 hs
    -- the last character stands for a digit
    obtain ⟨before, c, d, rfl, hd, hc⟩ := Text.exists_last hcs l.nonempty
    have small : d < 16 := l.digit_lt d hd
    have notSmall : c ≠ 'l' := hc.ne small nofun
    have notCapital : c ≠ 'L' := hc.ne small nofun
    rw [List.append_nil, ← List.append_assoc]
    simp [splitLongSuffix, notSmall, notCapital]

theorem radixDigits_octal {c : Char} {cs : List Char} (notx : c ≠ 'x') (notX : c ≠ 'X') (notb : c ≠ 'b')
    (notB : c ≠ 'B') : radixDigits ('0' :: c :: cs) = (8, c :: cs) := by
  unfold radixDigits
  split <;> simp_all

/-- the lead tells the radix -/
theorem radixDigits_written {lead cs : List Char} (hlead : lead ∈ l.form.leads)
    (hcs : List.Forall₂ Text.IsDigit l.digits cs) : radixDigits (lead ++ cs) = (l.form.radix, cs) := by
  obtain ⟨form, digits, isLong, nonempty, inRadix, noLeadingZero⟩ := l
  dsimp only at *
  cases hcs with
  | nil => exact absurd rfl nonempty
  | @cons d c ds cs hc hcs =>
    have hd : d < form.radix := inRadix d List.mem_cons_self
    cases form with
    | binary | hexadecimal => rcases List.mem_pair.1 hlead with rfl | rfl <;> rfl
    | octal =>
      obtain rfl := List.mem_singleton.1 hlead
      have small : d < 8 := hd
      have letter {other : Char} {v : Nat} (ho : Text.digitValue? 16 other = some v) (hv : 8 ≤ v) : c ≠ other := by
        refine hc.ne (by omega) fun h => ?_
        have := Option.some.inj (ho.symm.trans h)
        omega
      have notb : c ≠ 'b' := letter (v := 11) (by decide) (by decide)
      have notB : c ≠ 'B' := letter (v := 11) (by decide) (by decide)
      have notx : c ≠ 'x' := hc.ne (by omega) nofun
      have notX : c ≠ 'X' := hc.ne (by omega) nofun
      exact radixDigits_octal notx notX notb notB
    | decimal =>
      obtain rfl := List.mem_singleton.1 hlead
      by_cases hzero : c = '0'
      · -- a decimal literal that starts with 0 has no other digit
        have value : Text.digitValue? 16 '0' = some d := hzero ▸ Text.digitValue?_sixteen hc (hd.trans (by decide))
        have single : ds = [] := by
          refine (List.cons_eq_cons.1 (noLeadingZero rfl ?_)).2
          exact value.symm.trans (by decide)
        subst single
        cases hcs
        simp [radixDigits, IntegerForm.radix]
      · simp [radixDigits, hzero, IntegerForm.radix]

/-! ## Decoding -/

/-- a pattern means what it means as a two's complement -/
theorem signedPattern_eq {bits n : Nat} (hb : 0 < bits) (hn : n < 2 ^ bits) :
    signedPattern bits n = (BitVec.ofNat bits n).toInt := by
  obtain ⟨k, rfl⟩ : ∃ k, bits = k + 1 := Nat.exists_eq_succ_of_ne_zero hb.ne'
  have double : 2 ^ (k + 1) = 2 * 2 ^ k := Nat.pow_succ'
  have half : n < Nat.pow 2 (k + 1 - 1) ↔ 2 * n < 2 ^ (k + 1) := by
    rw [double, Nat.add_sub_cancel]
    exact (Nat.mul_lt_mul_left Nat.two_pos).symm
  rw [signedPattern, BitVec.toInt_eq_toNat_cond, BitVec.toNat_ofNat, Nat.mod_eq_of_lt hn]
  simp only [half]
  rfl

/-- **What is written is decoded as what it means.** -/
theorem Writes.decoded (h : l.Writes text) : Literal.ofIntegerText? (String.ofList text) = l.meaning?.map .int := by
  obtain ⟨lead, hlead, cs, suffix, hsuffix, hcs, hclean⟩ := h.parts
  have digits : Text.digitsValue? l.form.radix cs = some l.value :=
    Text.digitsValue?_of_forall₂ hcs l.nonempty l.inRadix l.form.radix_le
  rw [Literal.ofIntegerText?, String.toList_ofList, hclean, splitLongSuffix_written hcs hsuffix]
  dsimp only
  rw [radixDigits_written hlead hcs]
  dsimp only
  rw [digits, meaning?]
  by_cases hdecimal : l.form = .decimal
  · simp [hdecimal, IntegerForm.radix, Option.filter_some]
  · have notTen : l.form.radix ≠ 10 := by
      revert hdecimal
      cases l.form <;> decide
    have bits : (if l.isLong = true then 64 else 32) = patternBits l.isLong := rfl
    have positive : 0 < patternBits l.isLong := by cases l.isLong <;> decide
    simp only [if_neg notTen, if_neg hdecimal, bits, Option.filter_some, decide_eq_true_eq]
    by_cases hfits : l.value < 2 ^ patternBits l.isLong
    · rw [if_pos hfits, ← signedPattern_eq positive hfits]
      exact congrArg (Option.map _) (if_pos hfits)
    · rw [if_neg hfits]
      exact congrArg (Option.map _) (if_neg hfits)

end IntegerLiteral

/-- **Integer literals are decoded as what they mean.** A decimal literal denotes its value when that is less than `2 ^ 63`;
any other denotes the number of 32 bits, or of 64 bits with the suffix, whose two's complement pattern its value is, when
the value has so many bits; and nothing else is decoded. So a pattern in radix 2, 8 or 16 gives its number back, with any
zeros before it, and each pattern can be written. -/
theorem Literal.integer_decoded :
    (∀ (l : IntegerLiteral) (text : List Char), l.Writes text →
      Literal.ofIntegerText? (String.ofList text) = l.meaning?.map .int) ∧
    ∀ (form : IntegerForm) (isLong : Bool) (pattern : BitVec (IntegerLiteral.patternBits isLong)), form ≠ .decimal →
      (∀ l : IntegerLiteral, l.form = form → l.isLong = isLong → l.value = pattern.toNat →
        ∀ text, l.Writes text → Literal.ofIntegerText? (String.ofList text) = some (.int pattern.toInt)) ∧
      ∃ l : IntegerLiteral, ∃ text, l.form = form ∧ l.isLong = isLong ∧ l.value = pattern.toNat ∧ l.Writes text := by
  refine ⟨fun l text h => h.decoded, fun form isLong pattern hform => ⟨fun l hf hlong hvalue text h => ?_, ?_⟩⟩
  · subst hlong
    have fits : l.value < 2 ^ IntegerLiteral.patternBits l.isLong := hvalue ▸ pattern.isLt
    rw [h.decoded, IntegerLiteral.meaning?, if_neg (hf ▸ hform), if_pos fits, hvalue, BitVec.ofNat_toNat,
      BitVec.setWidth_eq]
    rfl
  · let l := IntegerLiteral.ofNat form isLong pattern.toNat
    obtain ⟨text, written⟩ := l.exists_writes
    exact ⟨l, text, rfl, rfl, IntegerLiteral.value_ofNat form isLong pattern.toNat, written⟩

/-- a pattern of 32 bits whose first bit is set, in letters of both cases and with two underscores -/
theorem Literal.integer_decoded_minusTwo :
    let l : IntegerLiteral :=
      ⟨.hexadecimal, [15, 15, 15, 15, 15, 15, 15, 14], false, by decide, by decide, by decide⟩
    let text : List Char := "0XfFFF__FFFe".toList
    l.Writes text ∧ l.value = (-2 : BitVec 32).toNat ∧ l.meaning? = some (-2) ∧
      Literal.ofIntegerText? (String.ofList text) = some (.int (-2)) ∧
      Literal.ofIntegerText? (String.ofList text) = some (.int (-2 : BitVec 32).toInt) := by
  intro l text
  have written : Text.WrittenDigits l.digits "fFFF__FFFe".toList :=
    .cons 0 (.inl rfl) (.cons 0 (.inr rfl) (.cons 0 (.inr rfl) (.cons 2 (.inr rfl)
      (.cons 0 (.inr rfl) (.cons 0 (.inr rfl) (.cons 0 (.inr rfl) (.last (.inl rfl))))))))
  have writes : l.Writes text := ⟨['0', 'X'], by decide, 0, _, [], by decide, written, rfl⟩
  have value : l.value = (-2 : BitVec 32).toNat := by decide +kernel
  have meaning : l.meaning? = some (-2) := by decide +kernel
  obtain ⟨decoded, patterns⟩ := integer_decoded
  refine ⟨writes, value, meaning, ?_, (patterns .hexadecimal false (-2) nofun).1 l rfl rfl value text writes⟩
  rw [decoded l text writes, meaning]
  rfl

end CallLint
