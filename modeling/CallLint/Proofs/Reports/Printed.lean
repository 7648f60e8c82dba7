/-
What is printed is JSON. `JsonValue.toJson` is the value that a printed value means: a number means its decimal digits. Its
text at any level of indentation is a text of that value (`JsonValue.value_print`), so that the grammar of JSON has it
(`JsonValue.document_render`).
-/
import CallLint.Proofs.Literals.Integers
import CallLint.Proofs.Reports.JsonTexts
import CallLint.Report.Json

namespace CallLint

/-! ## Decimal digits -/

namespace Text

theorem digitsValueFrom?_append (radix n : Nat) (cs ds : List Char) :
    digitsValueFrom? radix n (cs ++ ds) = (digitsValueFrom? radix n cs).bind (digitsValueFrom? radix · ds) := by
  induction cs generalizing n with
  | nil => rfl
  | cons c cs ih =>
    rw [List.cons_append, digitsValueFrom?, digitsValueFrom?]
    cases digitValue? radix c with
    | none => rfl
    | some d => exact ih _

/-- the digits of a number have it as their value -/
theorem digitsValue?_toDigits (n : Nat) : digitsValue? 10 (Nat.toDigits 10 n) = some n := by
  have digit {d : Nat} (h : d < 10) : digitValue? 10 (Nat.digitChar d) = some d :=
    digitValue?_of_isDigit (.inl rfl) h (by decide)
  have value : digitsValueFrom? 10 0 (Nat.toDigits 10 n) = some n := by
    induction n using Nat.strong_induction_on with
    | _ n ih =>
      by_cases h : n < 10
      · simp [Nat.toDigits_of_lt_base h, digitsValueFrom?, digit h]
      · have last : n % 10 < 10 := Nat.mod_lt _ (by decide)
        have front := ih (n / 10) (by omega)
        rw [Nat.toDigits_of_base_le (by decide) (by omega), digitsValueFrom?_append, front, Option.bind_some,
          digitsValueFrom?, digit last, Option.bind_some, digitsValueFrom?, Nat.div_add_mod']
  rw [digitsValue?, List.isEmpty_eq_false_iff.mpr Nat.toDigits_ne_nil, if_neg Bool.false_ne_true, value]

end Text

namespace Json

/-- no number but zero begins with a zero -/
theorem toDigits_head {n : Nat} (h : 0 < n) : ∃ c cs, Nat.toDigits 10 n = c :: cs ∧ c ≠ '0' := by
  induction n using Nat.strong_induction_on with
  | _ n ih =>
    by_cases small : n < 10
    · have all : ∀ d : Fin 10, 0 < d.val → Nat.digitChar d ≠ '0' := by decide
      exact ⟨_, [], Nat.toDigits_of_lt_base small, all ⟨n, small⟩ h⟩
    · obtain ⟨c, cs, front, ne⟩ := ih (n / 10) (by omega) (by omega)
      rw [Nat.toDigits_of_base_le (by decide) (by omega), front]
      exact ⟨c, _, rfl, ne⟩

theorem isNumber_toDigits (n : Nat) : isNumber (Nat.toDigits 10 n) := by
  have digits : ∀ c ∈ Nat.toDigits 10 n, c.isDigit := fun c => Nat.isDigit_of_mem_toDigits (by decide) (by decide)
  rcases Nat.eq_zero_or_pos n with rfl | hn
  · decide
  · obtain ⟨c, cs, hcs, zero⟩ := toDigits_head hn
    rw [hcs] at digits ⊢
    obtain ⟨first, others⟩ := List.forall_mem_cons.mp digits
    have minus : c ≠ '-' := by
      rintro rfl
      cases first
    have rest : cs.dropWhile Char.isDigit = [] := List.dropWhile_eq_nil_iff.mpr others
    simp [isNumber, isMagnitude, minus, zero, first, rest, isTail]

end Json

namespace JsonValue

open Json

/-! ## Strings -/

theorem quad_escapeControl {c : Char} (h : c.toNat < 0x20) :
    ∃ digits, escapeControl c = '\\' :: 'u' :: digits ∧ Quad c.toNat digits := by
  have all : ∀ n : Fin 32, Quad n (List.replicate (4 - (Text.hexText n).length) '0' ++ Text.hexText n) := by
    unfold Quad
    decide
  exact ⟨_, rfl, all ⟨c.toNat, h⟩⟩

theorem glyph_escapeChar (c : Char) : Glyph c (escapeChar c) := by
  unfold escapeChar
  split_ifs with quote slash backspace feed line carriage tab control
  · exact .short (by subst quote; rfl)
  · exact .short (by subst slash; rfl)
  · exact .short (by subst backspace; rfl)
  · exact .short (by subst feed; rfl)
  · exact .short (by subst line; rfl)
  · exact .short (by subst carriage; rfl)
  · exact .short (by subst tab; rfl)
  · obtain ⟨digits, text, quad⟩ := quad_escapeControl control
    rw [text]
    exact .code quad
  · refine .plain ?_
    simp only [isPlain, Bool.and_eq_true, decide_eq_true_eq, bne_iff_ne]
    exact ⟨⟨Nat.le_of_not_lt control, quote⟩, slash⟩

theorem quoted_quote (s : String) : Quoted s (quote s) := by
  have glyphs (cs : List Char) : Glyphs cs (cs.flatMap escapeChar) := by
    induction cs with
    | nil => exact .nil
    | cons c cs ih => exact .cons (glyph_escapeChar c) ih
  exact ⟨_, glyphs _, rfl⟩

/-! ## Values -/

mutual

/-- what a value means -/
def toJson : JsonValue → Json
  | text value => .text value
  | number value => .number (Nat.toDigits 10 value)
  | list elements => .list (toJsonAll elements)
  | object members => .object (toJsonMembers members)
termination_by structural v => v

def toJsonAll : List JsonValue → List Json
  | [] => []
  | v :: vs => toJson v :: toJsonAll vs
termination_by structural vs => vs

def toJsonMembers : List (String × JsonValue) → List (String × Json)
  | [] => []
  | m :: ms => toJsonMember m :: toJsonMembers ms
termination_by structural ms => ms

def toJsonMember : String × JsonValue → String × Json
  | (name, value) => (name, toJson value)
termination_by structural m => m

end

theorem toJsonAll_eq_map (vs : List JsonValue) : toJsonAll vs = vs.map toJson := by
  induction vs with
  | nil => rfl
  | cons v vs ih => rw [toJsonAll, ih, List.map_cons]

theorem toJsonMembers_eq_map (ms : List (String × JsonValue)) : toJsonMembers ms = ms.map toJsonMember := by
  induction ms with
  | nil => rfl
  | cons m ms ih => rw [toJsonMembers, ih, List.map_cons]

@[simp]
theorem toJson_text (s : String) : (text s).toJson = .text s :=
  rfl

theorem toJson_list (vs : List JsonValue) : (list vs).toJson = .list (vs.map toJson) := by
  rw [toJson, toJsonAll_eq_map]

@[simp]
theorem toJson_object (ms : List (String × JsonValue)) : (object ms).toJson = .object (ms.map toJsonMember) := by
  rw [toJson, toJsonMembers_eq_map]

@[simp]
theorem toJsonMember_pair (name : String) (v : JsonValue) : toJsonMember (name, v) = (name, v.toJson) :=
  rfl

theorem blanks_nil : Blanks [] :=
  fun _ h => nomatch h

theorem blanks_newline (level : Nat) : Blanks (newline level) := by
  intro c hc
  simp only [newline, List.mem_cons, List.mem_replicate] at hc
  rcases hc with rfl | ⟨-, rfl⟩ <;> rfl

/-- what stands between brackets when there is at least one element -/
theorem bracketed_cons {α : Type} {Item : α → List Char → Prop} {xs : List α} {ts : List (List Char)}
    (h : List.Forall₂ Item xs ts) (hne : ts ≠ []) (opening closing : Char) (level : Nat) :
    ∃ inner, bracketed opening closing level ts = opening :: (inner ++ [closing]) ∧ Separated Item xs inner := by
  -- each element has the line end of its level before it, and only the last one has anything after it
  have rows : ∀ {x xs t ts}, Item x t → List.Forall₂ Item xs ts → Separated Item (x :: xs)
      (newline (level + 1) ++ (t ++ (ts.flatMap (fun e => ',' :: newline (level + 1) ++ e) ++ newline level))) := by
    intro x xs t ts hx h
    induction h generalizing x t with
    | nil => exact .last (.mk (blanks_newline _) hx (blanks_newline _))
    | @cons y u ys us hy _ ih =>
      have first : Padded Item x (newline (level + 1) ++ (t ++ [])) := .mk (blanks_newline _) hx blanks_nil
      have both := Separated.cons first (ih hy)
      simpa only [List.append_nil, List.flatMap_cons, List.append_assoc, List.cons_append] using both
  cases h with
  | nil => exact absurd rfl hne
  | @cons x t xs ts hx h =>
    refine ⟨_, ?_, rows hx h⟩
    simp only [bracketed, List.append_assoc, List.cons_append, List.nil_append]

mutual

/-- **What is printed is a text of the value**, at any level. -/
theorem value_print (level : Nat) : (v : JsonValue) → Value v.toJson (print level v)
  | text s => .text (quoted_quote s)
  | number n => .number (isNumber_toDigits n)
  | list [] => .noElements (t := []) blanks_nil
  | list (v :: vs) => by
    obtain ⟨inner, text, items⟩ := bracketed_cons (values_printAll (level + 1) (v :: vs)) (by simp [printAll]) '[' ']' level
    rw [print, text]
    exact .list items
  | object [] => .noMembers (t := []) blanks_nil
  | object (m :: ms) => by
    obtain ⟨inner, text, items⟩ :=
      bracketed_cons (members_printMembers (level + 1) (m :: ms)) (by simp [printMembers]) '\x7b' '\x7d' level
    rw [print, text]
    exact .object items
termination_by structural v => v

theorem values_printAll (level : Nat) : (vs : List JsonValue) → List.Forall₂ Value (toJsonAll vs) (printAll level vs)
  | [] => .nil
  | v :: vs => .cons (value_print level v) (values_printAll level vs)
termination_by structural vs => vs

theorem members_printMembers (level : Nat) :
    (ms : List (String × JsonValue)) → List.Forall₂ Member (toJsonMembers ms) (printMembers level ms)
  | [] => .nil
  | m :: ms => .cons (member_printMember level m) (members_printMembers level ms)
termination_by structural ms => ms

theorem member_printMember (level : Nat) : (m : String × JsonValue) → Member (toJsonMember m) (printMember level m)
  | (name, value) => by
    have blank : Blanks [' '] := by simp [Blanks, isBlank]
    have member := Member.mk (quoted_quote name) blanks_nil blank (value_print level value)
    simpa only [printMember, toJsonMember, List.append_assoc, List.cons_append, List.nil_append] using member
termination_by structural m => m

end

/-- the text, also with a line end after it, is a whole text of the value -/
theorem document_render (v : JsonValue) : Document v.toJson (v.render ++ "\n") := by
  have line : Blanks "\n".toList := by simp [Blanks, isBlank]
  have padded := Padded.mk blanks_nil (value_print 0 v) line
  simpa only [Document, render, String.toList_append, String.toList_ofList, List.nil_append] using padded

end JsonValue

end CallLint
