/-
The tokens of a file without their places. `Source.written` keeps of each token its kind, its text, the part of a string
that ends at it, and whether it makes one operator with the next token. Files that are written alike differ in their
layout only: in blanks and comments, and so in where their tokens stand.

A reader that goes on in two such files after as many tokens sees the same tokens (`WrittenAlike.front`), and what takes
a token from the front of the one file takes as many from the front of the other (`WrittenAlike.take`).
-/
import CallLint.Source.Basic
import CallLint.Proofs.Correspondence.Relations
import CallLint.Proofs.Grammar.Ranges

namespace CallLint

/-! ## Written tokens -/

/-- whether a token of this kind ends a part of a string's content -/
def TokenKind.endsContent : TokenKind → Bool
  | .quoteClose | .spliceOpen => true
  | _ => false

/-- whether tokens of these kinds make one operator when they touch -/
def TokenKind.joins (a b : TokenKind) : Bool :=
  (a == .mark ">" && (b == .mark ">" || b == .mark "=" || b == .mark "==")) || (a == .word "non" && b == .mark "-") ||
    (a == .mark "-" && b == .word "sealed")

/-- a token as it is written, wherever it stands -/
structure WrittenToken where
  kind : TokenKind
  text : List UInt8
  /-- the part of a string's content that ends at the token -/
  content : List UInt8
  /-- makes one operator with the next token -/
  joined : Bool
deriving DecidableEq, Repr

namespace Source

/-- the bytes from one offset to another -/
def bytesBetween (s : Source) (start stop : Nat) : List UInt8 :=
  (s.bytes.extract start stop).toList

/-- the tokens as they are written, with the offset after what stands before them -/
def written (s : Source) : Nat → List Token → List WrittenToken
  | _, [] => []
  | last, t :: ts =>
    ⟨t.kind, s.bytesBetween t.start t.stop, if t.kind.endsContent then s.bytesBetween last t.start else [],
      ts.head?.any fun u => t.kind.joins u.kind && t.touches u⟩ :: s.written t.stop ts

theorem bytesBetween_append (s : Source) {a b c : Nat} (hab : a ≤ b) (hbc : b ≤ c) :
    s.bytesBetween a b ++ s.bytesBetween b c = s.bytesBetween a c := by
  rw [bytesBetween, bytesBetween, bytesBetween, ← Array.toList_append, Array.extract_append_extract, Nat.min_eq_left hab,
    Nat.max_eq_right hbc]

theorem bytesBetween_eq_nil (s : Source) {a b : Nat} (h : b ≤ a) : s.bytesBetween a b = [] := by
  rw [bytesBetween, Array.extract_empty_of_stop_le_start h]

end Source

/-! ## Places between tokens -/

/-- what is left to read after so many tokens -/
def inputAt (ts : List Token) (k : Nat) : Input :=
  ⟨ts.drop k, ((ts.take k).getLast?.map (·.stop)).getD 0⟩

/-- where the token after so many starts -/
def startAt (ts : List Token) (k : Nat) : Nat :=
  (inputAt ts k).next

/-- where the last of so many tokens ends -/
def stopAt (ts : List Token) (k : Nat) : Nat :=
  (inputAt ts k).stop

section Places

variable {ts : List Token} {k : Nat}

theorem drop_cons {t : Token} {rest : List Token} (h : ts.drop k = t :: rest) : k < ts.length ∧ rest = ts.drop (k + 1) := by
  have hk : k < ts.length := by
    by_contra hk
    rw [List.drop_eq_nil_of_le (Nat.not_lt.1 hk)] at h
    simp at h
  rw [List.drop_eq_getElem_cons hk] at h
  exact ⟨hk, (List.cons_eq_cons.1 h).2.symm⟩

theorem startAt_of_drop {t : Token} {rest : List Token} (h : ts.drop k = t :: rest) : startAt ts k = t.start := by
  rw [startAt, Input.next, inputAt, h]

theorem stopAt_of_drop {t : Token} {rest : List Token} (h : ts.drop k = t :: rest) : stopAt ts (k + 1) = t.stop := by
  have hk := (drop_cons h).1
  rw [List.drop_eq_getElem_cons hk] at h
  obtain ⟨rfl, -⟩ := List.cons_eq_cons.1 h
  rw [stopAt, inputAt, List.take_add_one, List.getElem?_eq_getElem hk, Option.toList_some, List.getLast?_concat]
  rfl

/-- the input after the token at the front -/
theorem inputAt_of_drop {t : Token} {rest : List Token} (h : ts.drop k = t :: rest) : inputAt ts (k + 1) = ⟨rest, t.stop⟩ := by
  have stop := stopAt_of_drop h
  rw [(drop_cons h).2, ← stop]
  rfl

theorem startAt_end (h : ts.length ≤ k) : startAt ts k = stopAt ts k := by
  rw [startAt, Input.next, stopAt, inputAt, List.drop_eq_nil_of_le h]

/-- where tokens that come after an offset end -/
theorem TokensAfter.drop {last : Nat} (h : TokensAfter last ts) (k : Nat) :
    TokensAfter (((ts.take k).getLast?.map (·.stop)).getD last) (ts.drop k) := by
  induction k generalizing last ts with
  | zero => exact h
  | succ k ih =>
    cases ts with
    | nil => exact trivial
    | cons t ts =>
      have later := ih h.2.2
      rw [List.take_succ_cons, List.drop_succ_cons, List.getLast?_cons, Option.map_some, Option.getD_some]
      cases hl : (ts.take k).getLast? with
      | none => rwa [hl] at later
      | some u => rwa [hl] at later

theorem TokensAfter.at (h : TokensAfter 0 ts) (k : Nat) : TokensAfter (stopAt ts k) (ts.drop k) :=
  h.drop k

theorem TokensAfter.stopAt_le (h : TokensAfter 0 ts) (k : Nat) : stopAt ts k ≤ startAt ts k := by
  have after := h.at k
  rcases hd : ts.drop k with _ | ⟨t, rest⟩
  · rw [startAt_end (List.drop_eq_nil_iff.1 hd)]
  · rw [hd] at after
    rw [startAt_of_drop hd]
    exact after.1.le

theorem TokensAfter.startAt_lt (h : TokensAfter 0 ts) (hk : k < ts.length) : startAt ts k < stopAt ts (k + 1) := by
  have after := h.at k
  have hd := List.drop_eq_getElem_cons hk
  rw [hd] at after
  rw [startAt_of_drop hd, stopAt_of_drop hd]
  exact after.2.1

theorem TokensAfter.stopAt_lt (h : TokensAfter 0 ts) {j : Nat} (hjk : j < k) (hk : k ≤ ts.length) :
    stopAt ts j < stopAt ts k := by
  induction k with
  | zero => exact absurd hjk (Nat.not_lt_zero j)
  | succ k ih =>
    have step : stopAt ts k < stopAt ts (k + 1) := (h.stopAt_le k).trans_lt (h.startAt_lt hk)
    rcases Nat.lt_succ_iff_lt_or_eq.1 hjk with hjk | rfl
    · exact (ih hjk (Nat.le_of_succ_le hk)).trans step
    · exact step

theorem TokensAfter.stopAt_lt_iff (h : TokensAfter 0 ts) {j : Nat} (hj : j ≤ ts.length) (hk : k ≤ ts.length) :
    stopAt ts j < stopAt ts k ↔ j < k := by
  constructor
  · intro hlt
    by_contra hjk
    rcases Nat.lt_or_eq_of_le (Nat.not_lt.1 hjk) with hkj | rfl
    · exact absurd hlt (h.stopAt_lt hkj hj).asymm
    · exact absurd hlt (lt_irrefl _)
  · exact fun hjk => h.stopAt_lt hjk hk

theorem TokensAfter.startAt_lt_startAt (h : TokensAfter 0 ts) {j : Nat} (hjk : j < k) (hk : k ≤ ts.length) :
    startAt ts j < startAt ts k := by
  have stops : stopAt ts (j + 1) ≤ stopAt ts k := by
    rcases Nat.lt_or_eq_of_le (Nat.succ_le_of_lt hjk) with h' | h'
    · exact (h.stopAt_lt h' hk).le
    · exact h' ▸ le_rfl
  exact ((h.startAt_lt (hjk.trans_le hk)).trans_le stops).trans_le (h.stopAt_le k)

theorem TokensAfter.startAt_le_iff (h : TokensAfter 0 ts) {j : Nat} (hj : j ≤ ts.length) (hk : k ≤ ts.length) :
    startAt ts j ≤ startAt ts k ↔ j ≤ k := by
  constructor
  · intro hle
    by_contra hjk
    exact absurd hle (Nat.not_le.2 (h.startAt_lt_startAt (Nat.not_le.1 hjk) hj))
  · intro hjk
    rcases Nat.lt_or_eq_of_le hjk with hjk | rfl
    · exact (h.startAt_lt_startAt hjk hk).le
    · exact le_rfl

end Places

/-! ## Files that are written alike -/

/-- the tokens of two files are the same but for their places -/
def WrittenAlike (s s' : Source) (ts ts' : List Token) : Prop :=
  s.written 0 ts = s'.written 0 ts'

instance (s s' : Source) (ts ts' : List Token) : Decidable (WrittenAlike s s' ts ts') :=
  inferInstanceAs (Decidable (_ = _))

theorem Source.written_drop (s : Source) (last : Nat) (ts : List Token) (k : Nat) :
    (s.written last ts).drop k = s.written (((ts.take k).getLast?.map (·.stop)).getD last) (ts.drop k) := by
  induction k generalizing last ts with
  | zero => rfl
  | succ k ih =>
    cases ts with
    | nil => rfl
    | cons t ts =>
      rw [Source.written, List.drop_succ_cons, List.drop_succ_cons, ih, List.take_succ_cons, List.getLast?_cons,
        Option.map_some, Option.getD_some]
      cases (ts.take k).getLast? <;> rfl

theorem Source.length_written (s : Source) (last : Nat) (ts : List Token) : (s.written last ts).length = ts.length := by
  induction ts generalizing last with
  | nil => rfl
  | cons t ts ih => rw [Source.written, List.length_cons, ih, List.length_cons]

/-- tokens at the front of what is left, after as many tokens in both files -/
structure Fronts (s s' : Source) (ts ts' : List Token) (k : Nat) (t t' : Token) : Prop where
  left : ts.drop k = t :: ts.drop (k + 1)
  right : ts'.drop k = t' :: ts'.drop (k + 1)
  kind : t.kind = t'.kind
  text : s.bytesBetween t.start t.stop = s'.bytesBetween t'.start t'.stop
  content : t.kind.endsContent = true →
    s.bytesBetween (stopAt ts k) t.start = s'.bytesBetween (stopAt ts' k) t'.start
  joined : ∀ {u u' : Token} {rest rest' : List Token}, ts.drop (k + 1) = u :: rest → ts'.drop (k + 1) = u' :: rest' →
    t.kind.joins u.kind = true → t.touches u = t'.touches u'

namespace WrittenAlike

variable {s s' : Source} {ts ts' : List Token} {k : Nat}

theorem length_eq (h : WrittenAlike s s' ts ts') : ts.length = ts'.length := by
  have := congrArg List.length h
  rwa [Source.length_written, Source.length_written] at this

/-- **Both files go on in the same way**, or both are at their end. -/
theorem front (h : WrittenAlike s s' ts ts') (k : Nat) :
    (ts.drop k = [] ∧ ts'.drop k = []) ∨ ∃ t t', Fronts s s' ts ts' k t t' := by
  have here := congrArg (List.drop k) h
  have next := congrArg (List.drop (k + 1)) h
  rw [Source.written_drop, Source.written_drop] at here next
  rcases hd : ts.drop k with _ | ⟨t, rest⟩ <;> rcases hd' : ts'.drop k with _ | ⟨t', rest'⟩ <;> rw [hd, hd'] at here
  · exact Or.inl ⟨rfl, rfl⟩
  · simp [Source.written] at here
  · simp [Source.written] at here
  · obtain ⟨-, rfl⟩ := drop_cons hd
    obtain ⟨-, rfl⟩ := drop_cons hd'
    obtain ⟨written, -⟩ := List.cons_eq_cons.1 here
    obtain ⟨kind, text, content, joined⟩ := WrittenToken.mk.inj written
    refine Or.inr ⟨t, t', hd, hd', kind, text, fun hends => ?_, fun {u u' rest rest'} hu hu' hjoins => ?_⟩
    · rwa [← kind, if_pos hends, if_pos hends] at content
    · rw [hu, hu'] at next
      obtain ⟨second, -⟩ := List.cons_eq_cons.1 next
      have kind' : u.kind = u'.kind := congrArg WrittenToken.kind second
      rw [hu, hu', List.head?_cons, List.head?_cons, Option.any_some, Option.any_some, ← kind, ← kind', hjoins,
        Bool.true_and, Bool.true_and] at joined
      exact joined

end WrittenAlike

/-! ## Taking tokens -/

/-- tokens taken from the fronts of two files, as many from each -/
structure TakenAlike (ts ts' : List Token) (k : Nat) (found found' : Token × List Token) : Prop where
  taken : ∃ m, k < m ∧ m ≤ ts.length ∧ inputAt ts m = ⟨found.2, found.1.stop⟩ ∧ inputAt ts' m = ⟨found'.2, found'.1.stop⟩
  start : found.1.start = startAt ts k
  start' : found'.1.start = startAt ts' k

namespace WrittenAlike

variable {s s' : Source} {ts ts' : List Token} {k : Nat} {t t' : Token}

theorem takenOne (hf : Fronts s s' ts ts' k t t') :
    TakenAlike ts ts' k (t, ts.drop (k + 1)) (t', ts'.drop (k + 1)) where
  taken := ⟨k + 1, k.lt_succ_self, (drop_cons hf.left).1, inputAt_of_drop hf.left, inputAt_of_drop hf.right⟩
  start := (startAt_of_drop hf.left).symm
  start' := (startAt_of_drop hf.right).symm

/-- a closing angle bracket that was taken last, and what is left after it -/
structure LastAngle (s s' : Source) (ts ts' : List Token) (k m : Nat) (last last' : Token) : Prop where
  fronts : ∃ t t', Fronts s s' ts ts' m t t' ∧ t.kind = .mark ">" ∧ t.stop = last.stop ∧ t'.stop = last'.stop
  kind : last.kind = .mark ">"
  kind' : last'.kind = .mark ">"
  start : last.start = startAt ts k
  start' : last'.start = startAt ts' k
  le : k ≤ m

/-- the token after a closing angle bracket touches it in both files or in neither -/
theorem LastAngle.touches {m : Nat} {last last' u u' : Token} (h : LastAngle s s' ts ts' k m last last')
    (hu : Fronts s s' ts ts' (m + 1) u u')
    (hk : u.kind = .mark ">" ∨ u.kind = .mark "=" ∨ u.kind = .mark "==") : last.touches u = last'.touches u' := by
  obtain ⟨t, t', hf, hkind, hstop, hstop'⟩ := h.fronts
  have joins : t.kind.joins u.kind = true := by
    rcases hk with hk | hk | hk <;> rw [hkind, hk] <;> decide
  have touch := hf.joined hu.left hu.right joins
  rw [Token.touches, Token.touches, hstop, hstop'] at touch
  exact touch

theorem takeAngles (h : WrittenAlike s s' ts ts') {m : Nat} {last last' : Token}
    (hl : LastAngle s s' ts ts' k m last last') (n : Nat) :
    Option.Rel (fun r r' => ∃ j, LastAngle s s' ts ts' k j r.1 r'.1 ∧ r.2 = ts.drop (j + 1) ∧ r'.2 = ts'.drop (j + 1))
      (CallLint.takeAngles n last (ts.drop (m + 1))) (CallLint.takeAngles n last' (ts'.drop (m + 1))) := by
  induction n generalizing m last last' with
  | zero => exact .some ⟨m, hl, rfl, rfl⟩
  | succ n ih =>
    rcases h.front (m + 1) with ⟨hd, hd'⟩ | ⟨u, u', hu⟩
    · rw [hd, hd']
      exact .none
    · rw [hu.left, hu.right, CallLint.takeAngles, CallLint.takeAngles, ← hu.kind]
      by_cases hk : u.kind = .mark ">"
      · rw [hl.touches hu (Or.inl hk)]
        split_ifs
        · have start : ({ u with start := last.start } : Token).start = startAt ts k := hl.start
          exact ih ⟨⟨u, u', hu, hk, rfl, rfl⟩, hk, hu.kind ▸ hk, start, hl.start', hl.le.trans m.le_succ⟩
        · exact .none
      · rw [beq_false_of_ne hk]
        exact .none

theorem anglesGoOn (h : WrittenAlike s s' ts ts') {m : Nat} {last last' : Token}
    (hl : LastAngle s s' ts ts' k m last last') :
    CallLint.anglesGoOn last (ts.drop (m + 1)) = CallLint.anglesGoOn last' (ts'.drop (m + 1)) := by
  rcases h.front (m + 1) with ⟨hd, hd'⟩ | ⟨u, u', hu⟩
  · rw [hd, hd']
    rfl
  · rw [hu.left, hu.right, CallLint.anglesGoOn, CallLint.anglesGoOn, ← hu.kind]
    cases hk : (u.kind == .mark ">" || u.kind == .mark "=" || u.kind == .mark "==") with
    | false => rw [Bool.and_false, Bool.and_false]
    | true =>
      rw [hl.touches hu (by simpa [or_assoc] using hk)]

/-- the equals sign at the end of an operator of closing angle brackets -/
theorem takeEquals (h : WrittenAlike s s' ts ts') (hf : Fronts s s' ts ts' k t t') {m : Nat} {last last' : Token}
    (hl : LastAngle s s' ts ts' k m last last') :
    Option.Rel (TakenAlike ts ts' k)
      (match ts.drop (m + 1) with
        | e :: rest =>
          if e.kind == .mark "=" && last.touches e then
            some ({ last with start := t.start, stop := e.stop, comments := t.comments }, rest)
          else none
        | [] => none)
      (match ts'.drop (m + 1) with
        | e :: rest =>
          if e.kind == .mark "=" && last'.touches e then
            some ({ last' with start := t'.start, stop := e.stop, comments := t'.comments }, rest)
          else none
        | [] => none) := by
  rcases h.front (m + 1) with ⟨hd, hd'⟩ | ⟨e, e', he⟩
  · rw [hd, hd']
    exact .none
  · rw [he.left, he.right]
    dsimp only
    rw [← he.kind]
    by_cases hke : e.kind = .mark "="
    · rw [hl.touches he (Or.inr (Or.inl hke))]
      split_ifs
      · have more : k < m + 2 := Nat.lt_succ_of_le (hl.le.trans m.le_succ)
        have left := inputAt_of_drop he.left
        have right := inputAt_of_drop he.right
        exact .some ⟨⟨m + 2, more, (drop_cons he.left).1, left, right⟩, (startAt_of_drop hf.left).symm,
          (startAt_of_drop hf.right).symm⟩
      · exact .none
    · rw [beq_false_of_ne hke]
      exact .none

theorem takeOperator (h : WrittenAlike s s' ts ts') (count : Nat) (equals : Bool) (hf : Fronts s s' ts ts' k t t') :
    Option.Rel (TakenAlike ts ts' k) (Terminal.takeOperator count equals t (ts.drop (k + 1)))
      (Terminal.takeOperator count equals t' (ts'.drop (k + 1))) := by
  rw [Terminal.takeOperator, Terminal.takeOperator, ← hf.kind]
  by_cases hk : t.kind = .mark ">"
  swap
  · rw [if_pos (bne_iff_ne.2 hk), if_pos (bne_iff_ne.2 hk)]
    exact .none
  have first : LastAngle s s' ts ts' k k t t' :=
    ⟨⟨t, t', hf, hk, rfl, rfl⟩, hk, hf.kind ▸ hk, (startAt_of_drop hf.left).symm, (startAt_of_drop hf.right).symm, le_rfl⟩
  rw [if_neg (by simp [hk]), if_neg (by simp [hk])]
  rcases optionRel_cases (h.takeAngles first (count - 1)) with
    ⟨hn, hn'⟩ | ⟨⟨last, rest⟩, ⟨last', rest'⟩, hr, hr', j, hl, rfl, rfl⟩
  · rw [hn, hn']
    exact .none
  · rw [hr, hr']
    obtain ⟨u, u', hu, -, hstop, hstop'⟩ := hl.fronts
    cases equals with
    | true => exact h.takeEquals hf hl
    | false =>
      dsimp only
      rw [if_neg Bool.false_ne_true, if_neg Bool.false_ne_true, h.anglesGoOn hl]
      split_ifs
      · exact .none
      · refine .some ⟨⟨j + 1, Nat.lt_succ_of_le hl.le, (drop_cons hu.left).1, ?_, ?_⟩, (startAt_of_drop hf.left).symm,
          (startAt_of_drop hf.right).symm⟩
        · rw [inputAt_of_drop hu.left, hstop]
        · rw [inputAt_of_drop hu.right, hstop']

/-- the words `non` and `sealed` with a hyphen between -/
theorem takeNonSealed (h : WrittenAlike s s' ts ts') (hf : Fronts s s' ts ts' k t t') :
    Option.Rel (TakenAlike ts ts' k) (Terminal.nonSealed.take (t :: ts.drop (k + 1)))
      (Terminal.nonSealed.take (t' :: ts'.drop (k + 1))) := by
  rcases h.front (k + 1) with ⟨hd, hd'⟩ | ⟨u, u', hu⟩
  · rw [hd, hd']
    exact .none
  rcases h.front (k + 2) with ⟨hd, hd'⟩ | ⟨v, v', hv⟩
  · rw [hu.left, hu.right, hd, hd']
    exact .none
  rw [hu.left, hu.right, hv.left, hv.right]
  simp only [Terminal.take]
  rw [← hf.kind, ← hu.kind, ← hv.kind]
  by_cases hkinds : t.kind = .word "non" ∧ u.kind = .mark "-" ∧ v.kind = .word "sealed"
  · obtain ⟨ht, hh, hs⟩ := hkinds
    have first : t.touches u = t'.touches u' := hf.joined hu.left hu.right (by rw [ht, hh]; decide)
    have second : u.touches v = u'.touches v' := hu.joined hv.left hv.right (by rw [hh, hs]; decide)
    rw [first, second]
    split_ifs
    · have left := inputAt_of_drop hv.left
      have right := inputAt_of_drop hv.right
      exact .some ⟨⟨k + 3, by omega, (drop_cons hv.left).1, left, right⟩, (startAt_of_drop hf.left).symm,
        (startAt_of_drop hf.right).symm⟩
    · exact .none
  · have none (b c : Bool) : (t.kind == .word "non" && u.kind == .mark "-" && v.kind == .word "sealed" && b && c) = false := by
      rw [Bool.eq_false_iff]
      intro hall
      simp only [Bool.and_eq_true, beq_iff_eq] at hall
      exact hkinds ⟨hall.1.1.1.1, hall.1.1.1.2, hall.1.1.2⟩
    rw [none, none]
    exact .none

/-- **What takes a token takes as many tokens from both files.** -/
theorem take (h : WrittenAlike s s' ts ts') (terminal : Terminal) (k : Nat) :
    Option.Rel (TakenAlike ts ts' k) (terminal.take (ts.drop k)) (terminal.take (ts'.drop k)) := by
  rcases h.front k with ⟨hd, hd'⟩ | ⟨t, t', hf⟩
  · rw [hd, hd']
    exact .none
  have one (p : Prop) [Decidable p] : Option.Rel (TakenAlike ts ts' k) (if p then some (t, ts.drop (k + 1)) else none)
      (if p then some (t', ts'.drop (k + 1)) else none) := by
    split_ifs
    · exact .some (takenOne hf)
    · exact .none
  rw [hf.left, hf.right]
  cases terminal with
  | word text =>
    rw [Terminal.take, Terminal.take, ← hf.kind]
    exact one _
  | name excluded =>
    rw [Terminal.take, Terminal.take, ← hf.kind]
    cases t.kind with
    | word text => simpa only [ite_not] using one (¬excluded.contains text = true)
    | _ => exact .none
  | oneOf texts =>
    rw [Terminal.take, Terminal.take, ← hf.kind]
    cases t.kind with
    | word text => exact one _
    | _ => exact .none
  | mark text =>
    rw [Terminal.take, Terminal.take, ← hf.kind]
    exact one _
  | kind kind =>
    rw [Terminal.take, Terminal.take, ← hf.kind]
    exact one _
  | angles count equals => exact h.takeOperator count equals hf
  | nonSealed => exact h.takeNonSealed hf

end WrittenAlike

/-- whether an arrow follows a group is told by the kinds of tokens -/
theorem arrowAfterGroup_congr {ts ts' : List Token} (h : ts.map (·.kind) = ts'.map (·.kind)) (depth : Nat) :
    arrowAfterGroup depth ts = arrowAfterGroup depth ts' := by
  induction ts generalizing depth ts' with
  | nil => rw [List.map_eq_nil_iff.1 h.symm]
  | cons t ts ih =>
    obtain ⟨t', ts', rfl, kind, rest⟩ := List.map_eq_cons_iff.1 h.symm
    rw [arrowAfterGroup.eq_def, arrowAfterGroup.eq_def depth (t' :: ts')]
    dsimp only at kind ⊢
    rw [kind, ih rest.symm, ih rest.symm, ih rest.symm]
    cases ts with
    | nil => rw [List.map_eq_nil_iff.1 rest]
    | cons u us =>
      obtain ⟨u', us', rfl, kind', -⟩ := List.map_eq_cons_iff.1 rest
      dsimp only at kind' ⊢
      rw [kind']

theorem Source.kinds_written (s : Source) (last : Nat) (ts : List Token) :
    (s.written last ts).map (·.kind) = ts.map (·.kind) := by
  induction ts generalizing last with
  | nil => rfl
  | cons t ts ih => rw [Source.written, List.map_cons, ih, List.map_cons]

theorem WrittenAlike.arrowAfterGroup {s s' : Source} {ts ts' : List Token} (h : WrittenAlike s s' ts ts') (depth k : Nat) :
    CallLint.arrowAfterGroup depth (ts.drop k) = CallLint.arrowAfterGroup depth (ts'.drop k) := by
  refine arrowAfterGroup_congr ?_ depth
  have kinds := congrArg (List.map (·.kind)) h
  rw [Source.kinds_written, Source.kinds_written] at kinds
  rw [List.map_drop, List.map_drop, kinds]

end CallLint
