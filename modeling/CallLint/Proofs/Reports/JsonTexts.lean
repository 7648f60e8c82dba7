/-
JSON texts and how they are read. `Json.Document` is the grammar of texts: blanks may stand around every token, a character
of a string may be escaped in several ways, and a character outside of the basic plane may stand as a pair of codes.
`Json.read?` reads a text from left to right. It reads every text of the grammar as the value that the grammar gives it
(`Json.read?_of_document`), so a text has one value at most (`Json.Document.unique`).
-/
import CallLint.Text.Digits
import Mathlib.Data.List.TakeWhile

namespace CallLint

inductive Json where
  | null
  | bool (value : Bool)
  /-- a number as it is written -/
  | number (literal : List Char)
  | text (value : String)
  | list (elements : List Json)
  | object (members : List (String × Json))

namespace Json

/-! ## Grammar: blanks and numbers -/

def isBlank (c : Char) : Bool :=
  c == ' ' || c == '\t' || c == '\n' || c == '\r'

def Blanks (cs : List Char) : Prop :=
  ∀ c ∈ cs, isBlank c

/-- digits after a sign or none -/
def isSignedDigits : List Char → Bool
  | [] => false
  | c :: cs => (c.isDigit || (c == '+' || c == '-') && !cs.isEmpty) && cs.all Char.isDigit

/-- the exponent of a number, or nothing -/
def isExponent : List Char → Bool
  | [] => true
  | c :: cs => (c == 'e' || c == 'E') && isSignedDigits cs

/-- what may follow the whole part of a number -/
def isTail : List Char → Bool
  | [] => true
  | c :: cs =>
    if c == '.' then !(cs.takeWhile Char.isDigit).isEmpty && isExponent (cs.dropWhile Char.isDigit)
    else isExponent (c :: cs)

/-- a number without a sign; more digits never follow a leading zero -/
def isMagnitude : List Char → Bool
  | [] => false
  | c :: cs => if c == '0' then isTail cs else c.isDigit && isTail (cs.dropWhile Char.isDigit)

def isNumber : List Char → Bool
  | [] => false
  | c :: cs => if c == '-' then isMagnitude cs else isMagnitude (c :: cs)

/-! ## Grammar: strings -/

/-- characters that may stand for themselves in a string -/
def isPlain (c : Char) : Bool :=
  0x20 ≤ c.toNat && c != '"' && c != '\\'

/-- the letters after a backslash with the characters they stand for -/
def escapes : List (Char × Char) :=
  [('"', '"'), ('\\', '\\'), ('/', '/'), ('b', '\x08'), ('f', '\x0c'), ('n', '\n'), ('r', '\r'), ('t', '\t')]

/-- four hexadecimal digits and their number -/
def Quad (n : Nat) (digits : List Char) : Prop :=
  digits.length = 4 ∧ Text.digitsValue? 16 digits = some n

/-- the first code of a pair -/
def isHigh (n : Nat) : Bool :=
  0xd800 ≤ n && n < 0xdc00

/-- the second code of a pair -/
def isLow (n : Nat) : Bool :=
  0xdc00 ≤ n && n < 0xe000

/-- the code that a pair stands for -/
def paired (high low : Nat) : Nat :=
  0x10000 + (high - 0xd800) * 0x400 + (low - 0xdc00)

/-- how one character of a string may be written -/
inductive Glyph : Char → List Char → Prop
  | plain {c : Char} : isPlain c → Glyph c [c]
  | short {letter c : Char} : escapes.lookup letter = some c → Glyph c ['\\', letter]
  | code {c : Char} {digits : List Char} : Quad c.toNat digits → Glyph c ('\\' :: 'u' :: digits)
  | pair {c : Char} {high low : Nat} {first second : List Char} : Quad high first → Quad low second → isHigh high →
      isLow low → paired high low = c.toNat → Glyph c ('\\' :: 'u' :: (first ++ '\\' :: 'u' :: second))

/-- how the characters of a string may be written -/
inductive Glyphs : List Char → List Char → Prop
  | nil : Glyphs [] []
  | cons {c : Char} {cs t ts : List Char} : Glyph c t → Glyphs cs ts → Glyphs (c :: cs) (t ++ ts)

/-- a string between double quotes -/
def Quoted (s : String) (t : List Char) : Prop :=
  ∃ inner, Glyphs s.toList inner ∧ t = '"' :: (inner ++ ['"'])

/-! ## Grammar: values -/

/-- an item with blanks before and after it -/
inductive Padded {α : Type} (Item : α → List Char → Prop) : α → List Char → Prop
  | mk {before t after : List Char} {x : α} : Blanks before → Item x t → Blanks after →
      Padded Item x (before ++ (t ++ after))

/-- items with commas between them, at least one, and blanks around each -/
inductive Separated {α : Type} (Item : α → List Char → Prop) : List α → List Char → Prop
  | last {x : α} {t : List Char} : Padded Item x t → Separated Item [x] t
  | cons {x : α} {xs : List α} {t ts : List Char} : Padded Item x t → Separated Item xs ts →
      Separated Item (x :: xs) (t ++ ',' :: ts)

mutual

inductive Value : Json → List Char → Prop
  | null : Value .null "null".toList
  | bool (b : Bool) : Value (.bool b) (toString b).toList
  | number {literal : List Char} : isNumber literal → Value (.number literal) literal
  | text {s : String} {t : List Char} : Quoted s t → Value (.text s) t
  | noElements {t : List Char} : Blanks t → Value (.list []) ('[' :: (t ++ [']']))
  | list {vs : List Json} {t : List Char} : Separated Value vs t → Value (.list vs) ('[' :: (t ++ [']']))
  | noMembers {t : List Char} : Blanks t → Value (.object []) ('\x7b' :: (t ++ ['\x7d']))
  | object {ms : List (String × Json)} {t : List Char} : Separated Member ms t →
      Value (.object ms) ('\x7b' :: (t ++ ['\x7d']))

/-- the name of a member, a colon and its value -/
inductive Member : String × Json → List Char → Prop
  | mk {name : String} {v : Json} {t before after value : List Char} : Quoted name t → Blanks before → Blanks after →
      Value v value → Member (name, v) (t ++ (before ++ ':' :: (after ++ value)))

end

/-- a whole text and its value -/
def Document (v : Json) (text : String) : Prop :=
  Padded Value v text.toList

/-! ## Reader -/

abbrev Reader (α : Type) := List Char → Option (α × List Char)

def skip (cs : List Char) : List Char :=
  cs.dropWhile isBlank

def readQuad : Reader Nat := fun cs =>
  if 4 ≤ cs.length then (Text.digitsValue? 16 (cs.take 4)).map (·, cs.drop 4) else none

/-- the second code of a pair -/
def readLow (high : Nat) : Reader Char
  | '\\' :: 'u' :: cs =>
    (readQuad cs).bind fun (low, cs) => if isLow low then some (Char.ofNat (paired high low), cs) else none
  | _ => none

/-- a code, or two that are a pair -/
def readCode : Reader Char := fun cs =>
  (readQuad cs).bind fun (n, cs) =>
    if isHigh n then readLow n cs else if isLow n then none else some (Char.ofNat n, cs)

def readGlyph : Reader Char
  | [] => none
  | '\\' :: [] => none
  | '\\' :: c :: cs => if c = 'u' then readCode cs else (escapes.lookup c).map (·, cs)
  | c :: cs => if isPlain c then some (c, cs) else none

/-- the characters of a string up to the quote that closes it, no more than `limit` -/
def readGlyphs : Nat → Reader (List Char)
  | _, '"' :: cs => some ([], cs)
  | 0, _ => none
  | limit + 1, cs => (readGlyph cs).bind fun (c, cs) => (readGlyphs limit cs).map fun (rest, cs) => (c :: rest, cs)

def readQuoted : Reader String
  | '"' :: cs => (readGlyphs cs.length cs).map fun (glyphs, cs) => (String.ofList glyphs, cs)
  | _ => none

/-- characters of numbers and of the three words -/
def isBare (c : Char) : Bool :=
  c.isAlphanum || c == '+' || c == '-' || c == '.'

def ofBare? (word : List Char) : Option Json :=
  if word = "null".toList then some .null
  else if word = "true".toList then some (.bool true)
  else if word = "false".toList then some (.bool false)
  else if isNumber word then some (.number word)
  else none

def readPadded {α : Type} (item : Reader α) : Reader α := fun cs =>
  (item (skip cs)).map fun (x, cs) => (x, skip cs)

/-- items up to the bracket that closes them, no more than `limit` -/
def readItems {α : Type} (item : Reader α) (closing : Char) : Nat → Reader (List α)
  | 0, _ => none
  | limit + 1, cs =>
    (readPadded item cs).bind fun
      | (x, c :: cs) =>
        if c = ',' then (readItems item closing limit cs).map fun (xs, cs) => (x :: xs, cs)
        else if c = closing then some ([x], cs)
        else none
      | (_, []) => none

/-- what stands in brackets -/
def readBracketed {α : Type} (item : Reader α) (closing : Char) : Reader (List α) := fun cs =>
  match skip cs with
  | [] => none
  | c :: rest => if c = closing then some ([], rest) else readItems item closing cs.length cs

def readMember (value : Reader Json) : Reader (String × Json) := fun cs =>
  (readQuoted cs).bind fun (name, cs) =>
    match skip cs with
    | ':' :: cs => (value (skip cs)).map fun (v, cs) => ((name, v), cs)
    | _ => none

/-- a number or one of the three words -/
def readBare : Reader Json := fun cs =>
  (ofBare? (cs.takeWhile isBare)).map (·, cs.dropWhile isBare)

/-- a value with no more than `depth` brackets inside one another -/
def readValue : Nat → Reader Json
  | _, '"' :: cs => (readQuoted ('"' :: cs)).map fun (s, cs) => (.text s, cs)
  | depth + 1, '[' :: cs => (readBracketed (readValue depth) ']' cs).map fun (vs, cs) => (.list vs, cs)
  | depth + 1, '\x7b' :: cs =>
    (readBracketed (readMember (readValue depth)) '\x7d' cs).map fun (ms, cs) => (.object ms, cs)
  | _, cs => readBare cs

/-- the value of a whole text -/
def read? (text : String) : Option Json :=
  match readPadded (readValue text.toList.length) text.toList with
  | some (v, []) => some v
  | _ => none

/-! ## Characters of numbers -/

variable {cs t rest : List Char} {c : Char}

theorem isBare_of_isDigit (h : c.isDigit) : isBare c := by
  simp [isBare, Char.isAlphanum, h]

theorem bare_of_all_isDigit (h : cs.all Char.isDigit) : ∀ c ∈ cs, isBare c :=
  fun c hc => isBare_of_isDigit (List.all_eq_true.mp h c hc)

/-- digits at the front of bare characters -/
theorem bare_of_dropWhile (h : ∀ c ∈ cs.dropWhile Char.isDigit, isBare c) : ∀ c ∈ cs, isBare c := by
  intro c hc
  rw [← List.takeWhile_append_dropWhile (p := Char.isDigit) (l := cs)] at hc
  rcases List.mem_append.mp hc with hd | hd
  · exact isBare_of_isDigit (List.mem_takeWhile_imp hd)
  · exact h c hd

theorem bare_of_isSignedDigits (h : isSignedDigits cs) : ∀ c ∈ cs, isBare c := by
  cases cs with
  | nil => simp
  | cons first cs =>
    simp only [isSignedDigits, Bool.and_eq_true] at h
    refine List.forall_mem_cons.mpr ⟨?_, bare_of_all_isDigit h.2⟩
    simp only [Bool.or_eq_true, Bool.and_eq_true, beq_iff_eq] at h
    rcases h.1 with hd | ⟨rfl | rfl, -⟩
    · exact isBare_of_isDigit hd
    · rfl
    · rfl

theorem bare_of_isExponent (h : isExponent cs) : ∀ c ∈ cs, isBare c := by
  cases cs with
  | nil => simp
  | cons first cs =>
    simp only [isExponent, Bool.and_eq_true, Bool.or_eq_true, beq_iff_eq] at h
    refine List.forall_mem_cons.mpr ⟨?_, bare_of_isSignedDigits h.2⟩
    rcases h.1 with rfl | rfl <;> rfl

theorem bare_of_isTail (h : isTail cs) : ∀ c ∈ cs, isBare c := by
  cases cs with
  | nil => simp
  | cons first cs =>
    simp only [isTail] at h
    split at h
    case isTrue hpoint =>
      rw [beq_iff_eq] at hpoint
      rw [Bool.and_eq_true] at h
      exact List.forall_mem_cons.mpr ⟨hpoint ▸ rfl, bare_of_dropWhile (bare_of_isExponent h.2)⟩
    case isFalse => exact bare_of_isExponent h

theorem bare_of_isMagnitude (h : isMagnitude cs) : ∀ c ∈ cs, isBare c := by
  cases cs with
  | nil => simp
  | cons first cs =>
    simp only [isMagnitude] at h
    split at h
    case isTrue hzero =>
      rw [beq_iff_eq] at hzero
      exact List.forall_mem_cons.mpr ⟨hzero ▸ rfl, bare_of_isTail h⟩
    case isFalse =>
      rw [Bool.and_eq_true] at h
      exact List.forall_mem_cons.mpr ⟨isBare_of_isDigit h.1, bare_of_dropWhile (bare_of_isTail h.2)⟩

theorem bare_of_isNumber (h : isNumber cs) : ∀ c ∈ cs, isBare c := by
  cases cs with
  | nil => simp
  | cons first cs =>
    simp only [isNumber] at h
    split at h
    case isTrue hminus =>
      rw [beq_iff_eq] at hminus
      exact List.forall_mem_cons.mpr ⟨hminus ▸ rfl, bare_of_isMagnitude h⟩
    case isFalse => exact bare_of_isMagnitude h

/-! ## Strings are read -/

theorem readQuad_append {n : Nat} {digits : List Char} (h : Quad n digits) :
    readQuad (digits ++ rest) = some (n, rest) := by
  have four : 4 ≤ (digits ++ rest).length := by simp [h.1]
  rw [readQuad, if_pos four, ← h.1, List.take_left, List.drop_left, h.2, Option.map_some]

theorem readCode_single {digits : List Char} (h : Quad c.toNat digits) :
    readCode (digits ++ rest) = some (c, rest) := by
  have valid := c.valid
  have high : isHigh c.toNat = false := by
    simp only [isHigh, Bool.and_eq_false_iff, decide_eq_false_iff_not]
    simp only [UInt32.isValidChar, Nat.isValidChar, Char.toNat_val] at valid
    omega
  have low : isLow c.toNat = false := by
    simp only [isLow, Bool.and_eq_false_iff, decide_eq_false_iff_not]
    simp only [UInt32.isValidChar, Nat.isValidChar, Char.toNat_val] at valid
    omega
  simp only [readCode, readQuad_append h, Option.bind_some, high, low, Bool.false_eq_true, if_false, Char.ofNat_toNat]

theorem readCode_pair {high low : Nat} {first second : List Char} (hf : Quad high first) (hs : Quad low second)
    (hh : isHigh high) (hl : isLow low) (hc : paired high low = c.toNat) :
    readCode (first ++ ('\\' :: 'u' :: (second ++ rest))) = some (c, rest) := by
  simp only [readCode, readQuad_append hf, Option.bind_some, hh, if_true, readLow, readQuad_append hs, hl, hc,
    Char.ofNat_toNat]

theorem readGlyph_append (h : Glyph c t) : readGlyph (t ++ rest) = some (c, rest) := by
  cases h with
  | plain h =>
    have slash : c ≠ '\\' := by
      simp only [isPlain, Bool.and_eq_true, bne_iff_ne] at h
      exact h.2
    simp only [List.cons_append, List.nil_append]
    rw [readGlyph.eq_4 _ _ (fun h _ => slash h) (fun _ _ h _ => slash h), if_pos h]
  | @short letter _ h =>
    have letters : letter ≠ 'u' := by
      rintro rfl
      cases h
    simp only [List.cons_append, List.nil_append, readGlyph, letters, if_false, h, Option.map_some]
  | code h => exact readCode_single h
  | pair hf hs hh hl hc =>
    rw [List.cons_append, List.cons_append, List.append_assoc]
    exact readCode_pair hf hs hh hl hc

/-- what a character of a string begins with does not close the string -/
theorem Glyph.head (h : Glyph c t) : ∃ first u, t = first :: u ∧ first ≠ '"' := by
  cases h with
  | plain h =>
    simp only [isPlain, Bool.and_eq_true, bne_iff_ne] at h
    exact ⟨c, [], rfl, h.1.2⟩
  | short | code | pair => exact ⟨_, _, rfl, by decide⟩

theorem readGlyphs_append {glyphs : List Char} (h : Glyphs glyphs t) {limit : Nat} (hl : t.length ≤ limit) :
    readGlyphs limit (t ++ '"' :: rest) = some (glyphs, rest) := by
  induction h generalizing limit with
  | nil => rw [List.nil_append, readGlyphs]
  | @cons c cs t ts hc _ ih =>
    obtain ⟨first, u, rfl, quote⟩ := hc.head
    cases limit with
    | zero => simp at hl
    | succ limit =>
      have shorter : ts.length ≤ limit := by
        simp only [List.length_append, List.length_cons] at hl
        omega
      have glyph : readGlyph (first :: (u ++ (ts ++ '"' :: rest))) = some (c, ts ++ '"' :: rest) := readGlyph_append hc
      rw [List.append_assoc, List.cons_append, readGlyphs.eq_3 _ _ (by simp [quote]), glyph]
      simp only [Option.bind_some, ih shorter, Option.map_some]

theorem readQuoted_append {s : String} (h : Quoted s t) : readQuoted (t ++ rest) = some (s, rest) := by
  obtain ⟨inner, glyphs, rfl⟩ := h
  have fits : inner.length ≤ (inner ++ '"' :: rest).length := by simp
  rw [List.cons_append, List.append_assoc, List.singleton_append, readQuoted, readGlyphs_append glyphs fits]
  simp only [Option.map_some, String.ofList_toList]

/-! ## Values are read -/

/-- a bare word does not go on here -/
def Stops (cs : List Char) : Prop :=
  ∀ c ∈ cs.head?, isBare c = false

/-- neither a bare word nor blanks go on here -/
def Closed (cs : List Char) : Prop :=
  ∀ c ∈ cs.head?, isBare c = false ∧ isBlank c = false

/-- a reader reads items that are no longer than `size`, where nothing goes on with their last word -/
def Reads {α : Type} (item : Reader α) (Item : α → List Char → Prop) (size : Nat) : Prop :=
  ∀ ⦃x t rest⦄, Item x t → t.length ≤ size → Stops rest → item (t ++ rest) = some (x, rest)

/-- items begin with a character that is neither blank nor the bracket that closes them -/
def Opens {α : Type} (Item : α → List Char → Prop) (closing : Char) : Prop :=
  ∀ ⦃x t⦄, Item x t → ∃ c u, t = c :: u ∧ isBlank c = false ∧ c ≠ closing

theorem isBare_of_isBlank (h : isBlank c) : isBare c = false := by
  simp only [isBlank, Bool.or_eq_true, beq_iff_eq] at h
  rcases h with ((rfl | rfl) | rfl) | rfl <;> rfl

theorem skip_blanks (h : Blanks t) : skip (t ++ cs) = skip cs :=
  List.dropWhile_append_of_pos h

theorem skip_cons (h : isBlank c = false) : skip (c :: cs) = c :: cs := by
  rw [skip, List.dropWhile_cons_of_neg (by simp [h])]

theorem skip_closed (h : Closed cs) : skip cs = cs := by
  cases cs with
  | nil => rfl
  | cons c cs => exact skip_cons (h c rfl).2

theorem stops_blanks (h : Blanks t) (hc : Closed cs) : Stops (t ++ cs) := by
  cases t with
  | nil => exact fun c hm => (hc c hm).1
  | cons b t => simpa [Stops] using isBare_of_isBlank (h b (by simp))

theorem closed_cons (hc : isBare c = false) (hb : isBlank c = false) : Closed (c :: cs) := by
  simp [Closed, hc, hb]

section Items

variable {α : Type} {Item : α → List Char → Prop} {item : Reader α} {closing : Char} {size : Nat} {x : α} {xs : List α}

theorem readPadded_append (reads : Reads item Item size) (opens : Opens Item closing) (h : Padded Item x t)
    (hl : t.length ≤ size) (hr : Closed rest) : readPadded item (t ++ rest) = some (x, rest) := by
  cases h with
  | @mk before t after _ blanks h ends =>
    obtain ⟨first, u, rfl, blank, -⟩ := opens h
    have fits : (first :: u).length ≤ size := by
      simp only [List.length_append] at hl
      omega
    have start : skip (before ++ (first :: u ++ after) ++ rest) = first :: u ++ (after ++ rest) := by
      rw [List.append_assoc, List.append_assoc, skip_blanks blanks, List.cons_append, skip_cons blank]
    rw [readPadded, start, reads h fits (stops_blanks ends hr), Option.map_some]
    simp only [skip_blanks ends, skip_closed hr]

theorem readItems_append (reads : Reads item Item size) (opens : Opens Item closing) (hc : isBare closing = false)
    (hb : isBlank closing = false) (comma : closing ≠ ',') (h : Separated Item xs t) (hs : t.length ≤ size)
    {limit : Nat} (hl : t.length < limit) : readItems item closing limit (t ++ closing :: rest) = some (xs, rest) := by
  induction h generalizing limit with
  | last h =>
    obtain ⟨limit, rfl⟩ := Nat.exists_eq_succ_of_ne_zero (Nat.ne_zero_of_lt hl)
    rw [readItems, readPadded_append reads opens h hs (closed_cons hc hb)]
    simp only [Option.bind_some, comma, if_false, if_true]
  | @cons x xs t ts h _ ih =>
    obtain ⟨limit, rfl⟩ := Nat.exists_eq_succ_of_ne_zero (Nat.ne_zero_of_lt hl)
    simp only [List.length_append, List.length_cons] at hs hl
    have first : readPadded item (t ++ ',' :: (ts ++ closing :: rest)) = some (x, ',' :: (ts ++ closing :: rest)) :=
      readPadded_append reads opens h (by omega) (closed_cons rfl rfl)
    have others : readItems item closing limit (ts ++ closing :: rest) = some (xs, rest) := ih (by omega) (by omega)
    rw [List.append_assoc, List.cons_append, readItems, first]
    simp only [Option.bind_some, if_true, others, Option.map_some]

/-- the first character of separated items, after the blanks before it -/
theorem Separated.skip (opens : Opens Item closing) (h : Separated Item xs t) :
    ∃ c u, Json.skip (t ++ rest) = c :: u ∧ c ≠ closing := by
  have padded : ∀ {x t rest}, Padded Item x t → ∃ c u, Json.skip (t ++ rest) = c :: u ∧ c ≠ closing := by
    intro x t rest h
    cases h with
    | mk blanks h _ =>
      obtain ⟨c, u, rfl, blank, ne⟩ := opens h
      rw [List.append_assoc, skip_blanks blanks, List.append_assoc, List.cons_append, skip_cons blank]
      exact ⟨c, _, rfl, ne⟩
  cases h with
  | last h => exact padded h
  | cons h _ =>
    rw [List.append_assoc]
    exact padded h

theorem readBracketed_append (reads : Reads item Item size) (opens : Opens Item closing) (hc : isBare closing = false)
    (hb : isBlank closing = false) (comma : closing ≠ ',') (h : Separated Item xs t) (hs : t.length ≤ size) :
    readBracketed item closing (t ++ closing :: rest) = some (xs, rest) := by
  obtain ⟨c, u, start, ne⟩ : ∃ c u, skip (t ++ closing :: rest) = c :: u ∧ c ≠ closing := h.skip opens
  have limit : t.length < (t ++ closing :: rest).length := by simp
  simp only [readBracketed, start, ne, if_false]
  exact readItems_append reads opens hc hb comma h hs limit

theorem readBracketed_nil (hb : isBlank closing = false) (h : Blanks t) :
    readBracketed item closing (t ++ closing :: rest) = some ([], rest) := by
  simp only [readBracketed, skip_blanks h, skip_cons hb, if_true]

end Items

theorem ofBare?_number (h : isNumber cs) : ofBare? cs = some (.number cs) := by
  have words : cs ≠ "null".toList ∧ cs ≠ "true".toList ∧ cs ≠ "false".toList := by
    refine ⟨?_, ?_, ?_⟩ <;> rintro rfl <;> revert h <;> decide
  rw [ofBare?, if_neg words.1, if_neg words.2.1, if_neg words.2.2, if_pos h]

theorem readValue_bare {v : Json} {depth : Nat} (h : ∀ c ∈ t, isBare c) (hv : ofBare? t = some v) (hr : Stops rest) :
    readValue depth (t ++ rest) = some (v, rest) := by
  cases t with
  | nil => cases hv
  | cons c t =>
    have bare : isBare c := h c (by simp)
    have brackets : c ≠ '"' ∧ c ≠ '[' ∧ c ≠ '\x7b' := by
      refine ⟨?_, ?_, ?_⟩ <;> rintro rfl <;> cases bare
    have stop : rest.takeWhile isBare = [] ∧ rest.dropWhile isBare = rest := by
      cases rest with
      | nil => exact ⟨rfl, rfl⟩
      | cons d rest => simpa [Stops] using hr
    rw [readValue.eq_4 _ _ (by simp [brackets]) (by simp [brackets]) (by simp [brackets]), readBare,
      List.takeWhile_append_of_pos h, List.dropWhile_append_of_pos h, stop.1, stop.2, List.append_nil, hv,
      Option.map_some]

theorem Quoted.head {s : String} (h : Quoted s t) : ∃ u, t = '"' :: u := by
  obtain ⟨inner, -, rfl⟩ := h
  exact ⟨_, rfl⟩

theorem readValue_quoted {s : String} {depth : Nat} (h : Quoted s t) :
    readValue depth (t ++ rest) = some (.text s, rest) := by
  obtain ⟨u, rfl⟩ := h.head
  have quoted : readQuoted ('"' :: (u ++ rest)) = some (s, rest) := readQuoted_append h
  rw [List.cons_append, readValue, quoted, Option.map_some]

theorem isBlank_of_isBare (h : isBare c) : isBlank c = false := by
  by_contra blank
  rw [isBare_of_isBlank (by simpa using blank)] at h
  cases h

theorem value_opens : Opens Value ']' := by
  intro v t h
  cases h with
  | null => exact ⟨_, _, rfl, rfl, by decide⟩
  | bool b => cases b <;> exact ⟨_, _, rfl, rfl, by decide⟩
  | number h =>
    cases t with
    | nil => cases h
    | cons c t =>
      have bare : isBare c := bare_of_isNumber h c (by simp)
      refine ⟨c, t, rfl, isBlank_of_isBare bare, ?_⟩
      rintro rfl
      cases bare
  | text h =>
    obtain ⟨u, rfl⟩ := h.head
    exact ⟨_, _, rfl, rfl, by decide⟩
  | noElements | list | noMembers | object => exact ⟨_, _, rfl, rfl, by decide⟩

theorem member_opens : Opens Member '\x7d' := by
  intro m t h
  cases h with
  | mk h _ _ =>
    obtain ⟨u, rfl⟩ := h.head
    exact ⟨_, _, rfl, rfl, by decide⟩

theorem readMember_reads {value : Reader Json} {size : Nat} (reads : Reads value Value size) :
    Reads (readMember value) Member size := by
  intro m t rest h hl hr
  cases h with
  | @mk name v t before after value quoted blanks spaces h =>
    obtain ⟨first, u, rfl, blank, -⟩ := value_opens h
    simp only [List.length_append, List.length_cons] at hl
    have named : readQuoted (t ++ (before ++ ':' :: (after ++ first :: u) ++ rest)) =
        some (name, before ++ ':' :: (after ++ first :: u) ++ rest) := readQuoted_append quoted
    have colon : skip (before ++ ':' :: (after ++ first :: u) ++ rest) = ':' :: (after ++ first :: u ++ rest) := by
      rw [List.append_assoc, skip_blanks blanks, List.cons_append, skip_cons rfl]
    have start : skip (after ++ first :: u ++ rest) = first :: u ++ rest := by
      rw [List.append_assoc, skip_blanks spaces, List.cons_append, skip_cons blank]
    have found := reads h (by simp only [List.length_cons]; omega) hr
    rw [List.append_assoc, readMember, named]
    simp only [Option.bind_some, colon, start, found, Option.map_some]

/-- what stands between two brackets is shorter than both with it -/
theorem length_le_of_bracketed {opening closing : Char} {depth : Nat}
    (h : (opening :: (t ++ [closing])).length ≤ depth + 1) : t.length ≤ depth := by
  simp only [List.length_cons, List.length_append, List.length_nil] at h
  omega

theorem readValue_list {vs : List Json} {depth : Nat}
    (h : readBracketed (readValue depth) ']' (t ++ ']' :: rest) = some (vs, rest)) :
    readValue (depth + 1) ('[' :: (t ++ [']']) ++ rest) = some (.list vs, rest) := by
  rw [List.cons_append, List.append_assoc, List.singleton_append, readValue, h, Option.map_some]

theorem readValue_object {ms : List (String × Json)} {depth : Nat}
    (h : readBracketed (readMember (readValue depth)) '\x7d' (t ++ '\x7d' :: rest) = some (ms, rest)) :
    readValue (depth + 1) ('\x7b' :: (t ++ ['\x7d']) ++ rest) = some (.object ms, rest) := by
  rw [List.cons_append, List.append_assoc, List.singleton_append, readValue, h, Option.map_some]

/-- **Every value is read.** As many brackets inside one another as the text is long are enough. -/
theorem readValue_reads (depth : Nat) : Reads (readValue depth) Value depth := by
  induction depth with
  | zero =>
    intro v t rest h hl
    obtain ⟨c, u, rfl, -⟩ := value_opens h
    simp at hl
  | succ depth ih =>
    intro v t rest h hl hr
    cases h with
    | null => exact readValue_bare (List.all_eq_true.1 rfl) rfl hr
    | bool b => cases b <;> exact readValue_bare (List.all_eq_true.1 rfl) rfl hr
    | number h => exact readValue_bare (bare_of_isNumber h) (ofBare?_number h) hr
    | text h => exact readValue_quoted h
    | noElements blanks => exact readValue_list (readBracketed_nil rfl blanks)
    | list h =>
      have fits := length_le_of_bracketed hl
      exact readValue_list (readBracketed_append ih value_opens rfl rfl (by decide) h fits)
    | noMembers blanks => exact readValue_object (readBracketed_nil rfl blanks)
    | object h =>
      have fits := length_le_of_bracketed hl
      exact readValue_object (readBracketed_append (readMember_reads ih) member_opens rfl rfl (by decide) h fits)

/-- **Every text of the grammar is read as its value.** -/
theorem read?_of_document {v : Json} {text : String} (h : Document v text) : read? text = some v := by
  have closed : Closed [] := by simp [Closed]
  have read := readPadded_append (readValue_reads text.toList.length) value_opens h le_rfl closed
  rw [List.append_nil] at read
  rw [read?, read]

example : read? " [ \"\\u00e9\\ud83d\\ude00\\n\" , -1.50e+3,[]] " =
    some (.list [.text "é😀\n", .number "-1.50e+3".toList, .list []]) := by
  rfl

theorem Document.unique {v w : Json} {text : String} (hv : Document v text) (hw : Document w text) : v = w := by
  have same : some v = some w := (read?_of_document hv).symm.trans (read?_of_document hw)
  exact Option.some.inj same

end Json

end CallLint
