/-
How far tokens and nodes reach. The scan of a file moves over its characters, and these take the bytes of the file
(`width_glyphs`), so no token ends beyond the last byte; nodes stand over tokens, so no node does
(`Source.node_liesIn`). Nodes start before they end and lie between the ends of their parents, as trees are in order.
-/
import CallLint.Proofs.Grammar.WordTexts
import CallLint.Proofs.Positions.Places

namespace CallLint

namespace Text

theorem firstGlyph_width_le (b : UInt8) (rest : List UInt8) : (firstGlyph (b :: rest)).width ≤ (b :: rest).length := by
  unfold firstGlyph
  cases hread : readGlyph (b :: rest) with
  | none => exact Nat.le_add_left 1 rest.length
  | some g => exact readGlyph_width_le hread

theorem width_cons (g : Glyph) (gs : List Glyph) : width (g :: gs) = g.width + width gs := by
  rw [width, List.map_cons, List.sum_cons, width]

theorem width_append (gs hs : List Glyph) : width (gs ++ hs) = width gs + width hs := by
  rw [width, List.map_append, List.sum_append, width, width]

/-- the characters of a text take all its bytes -/
theorem width_glyphs (bytes : List UInt8) : width (glyphs bytes) = bytes.length := by
  induction hn : bytes.length using Nat.strong_induction_on generalizing bytes with
  | _ n ih =>
    cases bytes with
    | nil => simpa [glyphs, glyphsFrom, width] using hn
    | cons b rest =>
      have first := firstGlyph_width b rest
      have fits := firstGlyph_width_le b rest
      rw [glyphs_cons, width_cons, ih _ _ _ List.length_drop]
      · omega
      · omega

end Text

/-! ## The scan stays in the text -/

/-- the characters that are left take the bytes that are left -/
def Cursor.Reaches (c : Cursor) (size : Nat) : Prop :=
  c.offset + Text.width c.rest = size

section Scan

variable {c c' : Cursor} {s s' : LexState} {size : Nat}

theorem Cursor.Reaches.advance (h : c.Reaches size) (n : Nat) : (c.advance n).Reaches size := by
  have parts : Text.width c.rest = Text.width (c.rest.take n) + Text.width (c.rest.drop n) := by
    rw [← Text.width_append, List.take_append_drop]
  rw [Reaches, c.advance_offset, Nat.add_assoc, ← show _ = _ + Text.width (c.advance n).rest from parts]
  exact h

theorem Cursor.Reaches.move (hm : LexMove c s c' s') (h : c.Reaches size) : c'.Reaches size := by
  cases hm with
  | skip n => exact h.advance n
  | comment _ _ _ => exact h.advance _
  | token _ _ _ => exact h.advance _

theorem TokensBetween.stop_le {lo hi : Nat} {ts : List Token} (h : TokensBetween lo ts hi) :
    lo ≤ hi ∧ ∀ t ∈ ts, t.stop ≤ hi := by
  induction ts generalizing lo with
  | nil => exact ⟨h, by simp⟩
  | cons t ts ih =>
    obtain ⟨hcomments, ht, hrest⟩ := h
    obtain ⟨hle, hstops⟩ := ih hrest
    exact ⟨hcomments.le.trans (ht.le.trans hle), List.forall_mem_cons.2 ⟨hle, hstops⟩⟩

end Scan

namespace Source

variable {s : Source} {root n c : Node}

/-- **No token ends beyond the text.** -/
theorem tokens_inside {ts : Tokens} (h : s.tokens? = some ts) : ∀ t ∈ ts.tokens, t.stop ≤ s.bytes.size := by
  obtain ⟨c, t, moves, rfl⟩ := s.tokens_moves h
  have whole : Cursor.Reaches ⟨s.glyphs, 0⟩ s.bytes.size := by
    rw [Cursor.Reaches, Nat.zero_add, glyphs, Text.width_glyphs, Array.length_toList]
  have reaches : c.Reaches s.bytes.size := moves.keeps Cursor.Reaches.move whole
  obtain ⟨mid, htokens, hcomments⟩ := (moves.keeps Scanned.move s.start_scanned).before
  have inside : mid ≤ s.bytes.size := hcomments.le.trans (reaches ▸ Nat.le_add_right _ _)
  exact fun t ht => (htokens.stop_le.2 t ht).trans inside

theorem stopAt_inside {ts : Tokens} (h : s.tokens? = some ts) (k : Nat) : stopAt ts.tokens k ≤ s.bytes.size := by
  rw [stopAt, inputAt]
  cases hlast : (ts.tokens.take k).getLast? with
  | none => exact Nat.zero_le _
  | some t => exact tokens_inside h t (List.mem_of_mem_take (List.mem_of_getLast? hlast))

/-- a tree stands over tokens of its file -/
theorem tree_stop (h : s.tree? = some root) : root.stop ≤ s.bytes.size := by
  obtain ⟨ts, htokens, htree⟩ := tree_tokens h
  have after := tokens_ascend htokens
  -- the file is written like itself, and a tree is then a twin of itself
  have same : WrittenAlike s s ts.tokens ts.tokens := rfl
  have twins := same.tree after after
  rw [htree] at twins
  cases twins with
  | some twin =>
    obtain ⟨-, -, -, k, -, hstop, -⟩ := twin.over
    exact hstop ▸ stopAt_inside htokens k

end Source

/-! ## Nodes -/

/-- what is in a node in order lies between its ends -/
theorem Node.InOrder.of_within {root n : Node} (h : root.InOrder) (hn : n ∈ root.within) :
    n.InOrder ∧ root.start ≤ n.start ∧ n.stop ≤ root.stop := by
  induction h with
  | @mk kind role start stop children between inOrder ih =>
    rcases Node.mem_within_iff.1 hn with rfl | ⟨c, hc, hn⟩
    · exact ⟨.mk between inOrder, le_rfl, le_rfl⟩
    · obtain ⟨hin, hstart, hstop⟩ := ih c hc hn
      obtain ⟨hlo, -, hhi⟩ := between.mem hc
      exact ⟨hin, hlo.trans hstart, hstop.trans hhi⟩

namespace Source

/-- **Nodes lie in their file.** -/
theorem node_liesIn {bytes : List UInt8} {root n : Node} (h : (ofBytes bytes).tree? = some root) (hn : n ∈ root.within) :
    ((ofBytes bytes).spanOf n).LiesIn bytes := by
  obtain ⟨inOrder, -, hstop⟩ := (tree_inOrder h).of_within hn
  exact span_liesIn inOrder.children.le (hstop.trans (tree_stop h))

/-- a child lies in its parent, and so does a node itself -/
theorem child_within (s : Source) {root n : Node} (h : root.InOrder) (hn : n ∈ root.within) (r : Role) :
    (s.spanOf ((n.child? r).getD n)).Within (s.spanOf n) := by
  cases hc : n.child? r with
  | none => exact ⟨le_rfl, le_rfl⟩
  | some c =>
    obtain ⟨hstart, -, hstop⟩ := (h.of_within hn).1.children.mem (List.mem_of_find?_eq_some hc)
    exact ⟨hstart, hstop⟩

end Source

end CallLint
