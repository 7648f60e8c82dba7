/-
What the scan of a text does, move by move. A move goes over characters that are left out, over a comment or over a
token (`LexMove`). Each step of the scan is some moves, so the whole scan is (`Source.tokens_moves`), and what no move
breaks holds where it ends (`LexMoves.keeps`).

The content of a string is left out up to the token that ends it. Nothing is said of what else stands there.
-/
import CallLint.Source.Lexer
import Mathlib.Tactic

namespace CallLint

open Text (Glyph)

def TokenKind.isWord : TokenKind → Bool
  | .word _ => true
  | _ => false

/-! ## Lexemes -/

namespace Lexeme

theorem lineComment_ne_zero {gs : List Glyph} (h : startsWith ['/', '/'] gs = true) : lineComment gs ≠ 0 := by
  cases gs with
  | nil => simp [startsWith] at h
  | cons g gs =>
    have hg : g.char = '/' := by
      simp only [startsWith, Bool.and_eq_true, beq_iff_eq] at h
      exact h.1
    simp [lineComment, h, run, hg]

/-- the longest of some lexemes is not empty -/
theorem longest_ne_zero {cs : List (TokenKind × Nat)} (best : Option (TokenKind × Nat)) {b : TokenKind × Nat}
    (hbest : ∀ b, best = some b → b.2 ≠ 0)
    (h : cs.foldl (fun best c => if c.2 > (best.map (·.2)).getD 0 then some c else best) best = some b) : b.2 ≠ 0 := by
  induction cs generalizing best with
  | nil => exact hbest b h
  | cons c cs ih =>
    refine ih _ (fun b hb => ?_) h
    dsimp only at hb
    split_ifs at hb with hlt
    · obtain rfl := Option.some.inj hb
      omega
    · exact hbest b hb

/-- the longest of some lexemes is one of them -/
theorem longest_mem {cs : List (TokenKind × Nat)} {best : Option (TokenKind × Nat)} {b : TokenKind × Nat}
    (h : cs.foldl (fun best c => if c.2 > (best.map (·.2)).getD 0 then some c else best) best = some b) :
    b ∈ cs ∨ best = some b := by
  induction cs generalizing best with
  | nil => exact .inr h
  | cons c cs ih =>
    rcases ih h with hmem | hbest
    · exact .inl (List.mem_cons_of_mem c hmem)
    · dsimp only at hbest
      split_ifs at hbest
      · cases hbest
        exact .inl List.mem_cons_self
      · exact .inr hbest

theorem number_ne_zero {gs : List Glyph} {kind : TokenKind} {n : Nat} (h : number gs = some (kind, n)) : n ≠ 0 :=
  longest_ne_zero none (by simp) h

theorem number_isWord {gs : List Glyph} {kind : TokenKind} {n : Nat} (h : number gs = some (kind, n)) :
    kind.isWord = false := by
  rcases longest_mem h with hmem | hnone
  · simp only [List.mem_cons, Prod.mk.injEq, List.not_mem_nil, or_false] at hmem
    obtain ⟨rfl, -⟩ | ⟨rfl, -⟩ | ⟨rfl, -⟩ | ⟨rfl, -⟩ | ⟨rfl, -⟩ | ⟨rfl, -⟩ := hmem <;> rfl
  · cases hnone

theorem mark_length {gs : List Glyph} {m : String} (h : mark gs = some m) : m.length ≠ 0 := by
  have all : ∀ m ∈ marks, m.length ≠ 0 := by decide
  exact all m (List.mem_of_find?_eq_some h)

end Lexeme

/-! ## Moves -/

theorem Cursor.advance_advance (c : Cursor) (m n : Nat) : (c.advance m).advance n = c.advance (m + n) := by
  simp only [advance, List.drop_drop, List.take_add, List.foldl_append]

/-- one move of the scan, over characters that are left out, over a comment or over a token -/
inductive LexMove (c : Cursor) (s : LexState) : Cursor → LexState → Prop where
  | skip (n : Nat) : LexMove c s (c.advance n) s
  | comment {n : Nat} (isLine : Bool) : c.rest ≠ [] → n ≠ 0 →
    LexMove c s (c.advance n) { s with comments := ⟨c.offset, (c.advance n).offset, isLine⟩ :: s.comments }
  | token {kind : TokenKind} {n : Nat} : c.rest ≠ [] → n ≠ 0 → (kind.isWord = true → n = Lexeme.word c.rest) →
    LexMove c s (c.advance n) (s.push kind c.offset (c.advance n).offset)

/-- any number of moves -/
inductive LexMoves : Cursor → LexState → Cursor → LexState → Prop where
  | nil {c : Cursor} {s : LexState} : LexMoves c s c s
  | cons {c c₁ c' : Cursor} {s s₁ s' : LexState} : LexMove c s c₁ s₁ → LexMoves c₁ s₁ c' s' → LexMoves c s c' s'

section Scan

variable {c c₁ c' : Cursor} {s s₁ s' : LexState} {modes modes' : List Mode}

/-- a move over a token that is no word -/
theorem LexMove.other {kind : TokenKind} {n : Nat} (hrest : c.rest ≠ []) (hn : n ≠ 0) (hk : kind.isWord = false) :
    LexMove c s (c.advance n) (s.push kind c.offset (c.advance n).offset) :=
  .token hrest hn fun hword => absurd (hk.symm.trans hword) Bool.false_ne_true

theorem LexMove.moves (h : LexMove c s c' s') : LexMoves c s c' s' :=
  .cons h .nil

theorem LexMoves.trans (h : LexMoves c s c₁ s₁) (h' : LexMoves c₁ s₁ c' s') : LexMoves c s c' s' := by
  induction h with
  | nil => exact h'
  | cons hm _ ih => exact .cons hm (ih h')

/-- what no move breaks holds where the moves end -/
theorem LexMoves.keeps {I : Cursor → LexState → Prop} (h : LexMoves c s c' s')
    (hI : ∀ {c c' s s'}, LexMove c s c' s' → I c s → I c' s') (start : I c s) : I c' s' := by
  induction h with
  | nil => exact start
  | cons hm _ ih => exact ih (hI hm start)

/-! ## Strings -/

def StringEnd.after : StringEnd → Cursor
  | .closed after _ => after
  | .splice after _ => after

def StringEnd.start : StringEnd → Nat
  | .closed _ start => start
  | .splice _ start => start

/-- the scan of a string's content goes over what is left out and then over what ends it -/
theorem scanString_splits {block : Bool} {fuel : Nat} {e : StringEnd} (h : scanString block fuel c = some e) :
    ∃ m n, (c.advance m).rest ≠ [] ∧ n ≠ 0 ∧ e.start = (c.advance m).offset ∧ e.after = (c.advance m).advance n := by
  induction fuel generalizing c with
  | zero => cases h
  | succ fuel ih =>
    have go {k : Nat} (h : scanString block fuel (c.advance k) = some e) : ∃ m n, (c.advance m).rest ≠ [] ∧ n ≠ 0 ∧
        e.start = (c.advance m).offset ∧ e.after = (c.advance m).advance n := by
      obtain ⟨m, n, hends⟩ := ih h
      rw [c.advance_advance k m] at hends
      exact ⟨k + m, n, hends⟩
    simp only [scanString] at h
    split at h
    · cases h
    · rename_i g gs hr
      have here : (c.advance 0).rest ≠ [] := hr ▸ List.cons_ne_nil g gs
      split_ifs at h
      · cases h
        exact ⟨0, 1, here, by decide, rfl, rfl⟩
      · cases h
        exact ⟨0, 3, here, by decide, rfl, rfl⟩
      · exact go h
      · split at h
        · cases h
        · cases h
          exact ⟨0, 2, here, by decide, rfl, rfl⟩
        · exact go h
      · exact go h

theorem lexString_moves {block : Bool} (h : lexString block c modes s = some (c', modes', s')) : LexMoves c s c' s' := by
  simp only [lexString] at h
  split at h
  · cases h
  all_goals
    rename_i after start he
    cases h
    obtain ⟨m, n, hrest, hn, hstart, hafter⟩ := scanString_splits he
    obtain rfl : start = _ := hstart
    obtain rfl : c' = _ := hafter
    exact .cons (.skip m) (LexMove.other hrest hn rfl).moves

/-! ## Steps -/

theorem lexStep_moves {g : Glyph} {gs : List Glyph} (hr : c.rest = g :: gs)
    (h : lexStep c g gs modes s = some (c', modes', s')) : LexMoves c s c' s' := by
  have hrest : c.rest ≠ [] := hr ▸ List.cons_ne_nil g gs
  have token {n : Nat} {kind : TokenKind} {m : List Mode} (hn : n ≠ 0) (hk : kind.isWord = false)
      (h : some (c.advance n, m, s.push kind c.offset (c.advance n).offset) = some (c', modes', s')) :
      LexMoves c s c' s' := by
    cases h
    exact (LexMove.other hrest hn hk).moves
  have comment {n : Nat} {isLine : Bool} (hn : n ≠ 0)
      (h : some (c.advance n, modes, { s with comments := ⟨c.offset, (c.advance n).offset, isLine⟩ :: s.comments }) =
        some (c', modes', s')) : LexMoves c s c' s' := by
    cases h
    exact (LexMove.comment isLine hrest hn).moves
  have string {n : Nat} {kind : TokenKind} {block : Bool} {m : List Mode} (hn : n ≠ 0) (hk : kind.isWord = false)
      (h : lexString block (c.advance n) m (s.push kind c.offset (c.advance n).offset) = some (c', modes', s')) :
      LexMoves c s c' s' :=
    .cons (.other hrest hn hk) (lexString_moves h)
  have mark (h : ((Lexeme.mark c.rest).bind fun m => some (c.advance m.length, Mode.afterMark m modes,
      s.push (.mark m) c.offset (c.advance m.length).offset)) = some (c', modes', s')) : LexMoves c s c' s' := by
    obtain ⟨m, hm, h⟩ := Option.bind_eq_some_iff.1 h
    exact token (Lexeme.mark_length hm) rfl h
  unfold lexStep at h
  dsimp only at h
  split_ifs at h with hblank hline hblock hword hchar hquote _ hbrace
  · cases h
    exact (LexMove.skip 1).moves
  · exact comment (Lexeme.lineComment_ne_zero hline) h
  · exact comment (bne_iff_ne.1 hblock) h
  · cases h
    exact (LexMove.token hrest (bne_iff_ne.1 hword) fun _ => rfl).moves
  · exact token (bne_iff_ne.1 hchar) rfl h
  · exact string (by decide) rfl h
  · exact string Nat.one_ne_zero rfl h
  · split at h
    · exact token (Lexeme.number_ne_zero ‹_›) (Lexeme.number_isWord ‹_›) h
    · split at h
      · exact string Nat.one_ne_zero rfl h
      · exact mark h
  · split at h
    · exact token (Lexeme.number_ne_zero ‹_›) (Lexeme.number_isWord ‹_›) h
    · split at h <;> exact mark h

theorem lexFrom_moves {fuel : Nat} {ts : Tokens} (h : lexFrom fuel c modes s = some ts) :
    ∃ c' s', LexMoves c s c' s' ∧ ts = ⟨s'.tokens.reverse, s'.comments.reverse⟩ := by
  induction fuel generalizing c modes s with
  | zero =>
    rw [lexFrom.eq_def] at h
    cases h
  | succ fuel ih =>
    rw [lexFrom.eq_def] at h
    dsimp only at h
    split at h
    · split_ifs at h
      cases h
      exact ⟨c, s, .nil, rfl⟩
    · rename_i hr
      split at h
      · cases h
      · rename_i hs
        obtain ⟨c', s', moves, hts⟩ := ih h
        exact ⟨c', s', (lexStep_moves hr hs).trans moves, hts⟩

/-- a byte order mark is left out, as blanks are -/
theorem Cursor.start_moves (gs : List Glyph) : LexMoves ⟨gs, 0⟩ s (Cursor.start gs) s := by
  unfold Cursor.start
  split
  · rename_i g rest
    split_ifs
    · have marked : Cursor.advance ⟨g :: rest, 0⟩ 1 = ⟨rest, g.width⟩ := by simp [Cursor.advance]
      exact marked ▸ (LexMove.skip 1).moves
    · exact .nil
  · exact .nil

/-- **The tokens of a text are those of a run of moves** from its first character on. -/
theorem Source.tokens_moves {source : Source} {ts : Tokens} (h : source.tokens? = some ts) :
    ∃ c s, LexMoves ⟨source.glyphs, 0⟩ ⟨[], []⟩ c s ∧ ts = ⟨s.tokens.reverse, s.comments.reverse⟩ := by
  obtain ⟨c, s, moves, hts⟩ := lexFrom_moves h
  exact ⟨c, s, (Cursor.start_moves _).trans moves, hts⟩

end Scan

end CallLint
