/-
The tokens of a file follow one another in the text, none of them is empty, and each comes after the comments that it
carries. `tokens_ascend` says so for every file that has tokens at all.

The invariant of the scan: the tokens so far and then the comments since the last of them lie one after the other before
the cursor. Every move goes on, since each character takes at least one byte.
-/
import CallLint.Proofs.Grammar.Scanning
import CallLint.Proofs.Grammar.Ranges

namespace CallLint

open Text (Glyph)

/-! ## Characters take bytes -/

theorem Text.readGlyph_width {bytes : List UInt8} {g : Glyph} (h : Text.readGlyph bytes = some g) : 1 ≤ g.width := by
  unfold Text.readGlyph at h
  repeat' split at h
  all_goals first
    | simp at h; done
    | obtain rfl := Option.some.inj h; simp

theorem Text.glyphsFrom_width {bytes : List UInt8} {acc : Array Glyph} {skip : Nat}
    (hacc : ∀ g ∈ acc.toList, 1 ≤ g.width) : ∀ g ∈ (Text.glyphsFrom acc skip bytes).toList, 1 ≤ g.width := by
  induction bytes generalizing acc skip with
  | nil => simpa [Text.glyphsFrom] using hacc
  | cons b rest ih =>
    have push {g : Glyph} (hg : 1 ≤ g.width) : ∀ g' ∈ (acc.push g).toList, 1 ≤ g'.width := by
      intro g' hg'
      rw [Array.toList_push, List.mem_append, List.mem_singleton] at hg'
      rcases hg' with hg' | rfl
      · exact hacc g' hg'
      · exact hg
    cases skip with
    | succ skip => exact ih hacc
    | zero =>
      simp only [Text.glyphsFrom]
      split
      · rename_i g hg
        exact ih (push (Text.readGlyph_width hg))
      · exact ih (push le_rfl)

theorem Text.glyphs_width (bytes : List UInt8) : ∀ g ∈ Text.glyphs bytes, 1 ≤ g.width :=
  Text.glyphsFrom_width (by simp)

/-! ## Cursors move on -/

/-- all characters that are left take at least one byte -/
def Cursor.Solid (c : Cursor) : Prop :=
  ∀ g ∈ c.rest, 1 ≤ g.width

theorem Cursor.Solid.advance {c : Cursor} (h : c.Solid) (n : Nat) : (c.advance n).Solid :=
  fun g hg => h g (List.mem_of_mem_drop hg)

theorem le_foldl_width (gs : List Glyph) (offset : Nat) : offset ≤ gs.foldl (fun o g => o + g.width) offset := by
  induction gs generalizing offset with
  | nil => exact le_rfl
  | cons g gs ih => exact (Nat.le_add_right offset g.width).trans (ih _)

theorem Cursor.offset_le_advance (c : Cursor) (n : Nat) : c.offset ≤ (c.advance n).offset :=
  le_foldl_width _ _

theorem Cursor.Solid.offset_lt_advance {c : Cursor} (h : c.Solid) (hrest : c.rest ≠ []) {n : Nat} (hn : n ≠ 0) :
    c.offset < (c.advance n).offset := by
  obtain ⟨g, gs, hr⟩ := List.exists_cons_of_ne_nil hrest
  obtain ⟨n, rfl⟩ := Nat.exists_eq_succ_of_ne_zero hn
  have hg : 1 ≤ g.width := h g (by simp [hr])
  have hle := le_foldl_width (gs.take n) (c.offset + g.width)
  simp only [Cursor.advance, hr, List.take_succ_cons, List.foldl_cons]
  omega

/-! ## The invariant of the scan -/

/-- tokens that follow one another between two offsets, each after the comments before it -/
def TokensBetween : Nat → List Token → Nat → Prop
  | lo, [], hi => lo ≤ hi
  | lo, t :: ts, hi => Between lo (t.comments.map Comment.node) t.start ∧ t.start < t.stop ∧ TokensBetween t.stop ts hi

theorem TokensBetween.after {lo hi : Nat} {ts : List Token} (h : TokensBetween lo ts hi) : TokensAfter lo ts := by
  induction ts generalizing lo with
  | nil => trivial
  | cons t ts ih => exact ⟨h.1, h.2.1, ih h.2.2⟩

theorem TokensBetween.snoc {lo mid : Nat} {ts : List Token} {t : Token} (h : TokensBetween lo ts mid)
    (hc : Between mid (t.comments.map Comment.node) t.start) (ht : t.start < t.stop) :
    TokensBetween lo (ts ++ [t]) t.stop := by
  induction ts generalizing lo with
  | nil => exact ⟨hc.mono h le_rfl, ht, le_rfl⟩
  | cons t' ts ih => exact ⟨h.1, h.2.1, ih h.2.2⟩

/-- the tokens and then the comments lie one after the other before an offset -/
def LexState.Before (s : LexState) (offset : Nat) : Prop :=
  ∃ mid, TokensBetween 0 s.tokens.reverse mid ∧ Between mid (s.comments.reverse.map Comment.node) offset

theorem LexState.Before.mono {s : LexState} {a b : Nat} (h : s.Before a) (hab : a ≤ b) : s.Before b := by
  obtain ⟨mid, ht, hc⟩ := h
  exact ⟨mid, ht, hc.mono le_rfl hab⟩

theorem LexState.Before.push {s : LexState} {offset start stop : Nat} (h : s.Before offset) (hle : offset ≤ start)
    (hlt : start < stop) (kind : TokenKind) : (s.push kind start stop).Before stop := by
  obtain ⟨mid, ht, hc⟩ := h
  refine ⟨stop, ?_, le_rfl⟩
  simp only [LexState.push, List.reverse_cons]
  exact ht.snoc (hc.mono le_rfl hle) hlt

theorem LexState.Before.comment {s : LexState} {start stop : Nat} (h : s.Before start) (hlt : start < stop)
    (isLine : Bool) : LexState.Before { s with comments := ⟨start, stop, isLine⟩ :: s.comments } stop := by
  obtain ⟨mid, ht, hc⟩ := h
  refine ⟨mid, ht, ?_⟩
  simp only [List.reverse_cons, List.map_append]
  exact hc.append ⟨le_rfl, hlt, le_rfl⟩

/-- the invariant of the scan -/
structure Scanned (c : Cursor) (s : LexState) : Prop where
  solid : c.Solid
  before : s.Before c.offset

theorem Scanned.move {c c' : Cursor} {s s' : LexState} (hm : LexMove c s c' s') (h : Scanned c s) : Scanned c' s' := by
  cases hm with
  | skip n => exact ⟨h.solid.advance n, h.before.mono (c.offset_le_advance n)⟩
  | comment isLine hrest hn =>
    exact ⟨h.solid.advance _, h.before.comment (h.solid.offset_lt_advance hrest hn) isLine⟩
  | token hrest hn _ => exact ⟨h.solid.advance _, h.before.push le_rfl (h.solid.offset_lt_advance hrest hn) _⟩

theorem Source.start_scanned (s : Source) : Scanned ⟨s.glyphs, 0⟩ ⟨[], []⟩ :=
  ⟨Text.glyphs_width _, 0, Nat.le_refl 0, Nat.zero_le _⟩

/-- **Tokens ascend.** -/
theorem Source.tokens_ascend {s : Source} {ts : Tokens} (h : s.tokens? = some ts) : TokensAfter 0 ts.tokens := by
  obtain ⟨c, t, moves, rfl⟩ := s.tokens_moves h
  obtain ⟨mid, htokens, -⟩ := (moves.keeps Scanned.move s.start_scanned).before
  exact htokens.after

end CallLint
