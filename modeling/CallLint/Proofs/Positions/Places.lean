/-
Where byte offsets stand. A line feed ends a line, whatever it is part of, and columns count bytes; so the line of an
offset is told by the line feeds before it and its column by the bytes since the last of these (`Source.place_ofBytes`).
A span lies in bytes when its ends are offsets there, in this order, with the lines and columns of these offsets.
-/
import CallLint.Source.Basic
import Mathlib.Data.List.DropRight

namespace CallLint

/-- the byte that ends a line -/
def lineFeed : UInt8 := 10

/-- one more than the line feeds before an offset -/
def lineAt (bytes : List UInt8) (offset : Nat) : Nat :=
  (bytes.take offset).count lineFeed + 1

/-- one more than the bytes between the last line feed before an offset and the offset -/
def columnAt (bytes : List UInt8) (offset : Nat) : Nat :=
  ((bytes.take offset).rtakeWhile (· != lineFeed)).length + 1

namespace Span

/-- both ends are offsets in the bytes, in this order, with their lines and columns -/
structure LiesIn (bytes : List UInt8) (a : Span) : Prop where
  ordered : a.startByte ≤ a.endByte
  inside : a.endByte ≤ bytes.length
  startLine : a.startLine = lineAt bytes a.startByte
  startColumn : a.startColumn = columnAt bytes a.startByte
  endLine : a.endLine = lineAt bytes a.endByte
  endColumn : a.endColumn = columnAt bytes a.endByte

/-- no byte of the span lies outside the other -/
def Within (a b : Span) : Prop :=
  b.startByte ≤ a.startByte ∧ a.endByte ≤ b.endByte

end Span

theorem foldl_next (bytes : List UInt8) :
    bytes.foldl Place.next ⟨1, 1⟩ = ⟨bytes.count lineFeed + 1, (bytes.rtakeWhile (· != lineFeed)).length + 1⟩ := by
  induction bytes using List.reverseRecOn with
  | nil => rfl
  | append_singleton bytes b ih =>
    rw [List.foldl_concat, ih, Place.next, List.count_append, List.count_singleton, List.rtakeWhile_concat]
    by_cases hb : b = lineFeed
    · simp [hb, lineFeed]
    · have hb' : ¬b = 10 := hb
      simp [hb, hb']

theorem placesFrom_toList (acc : Array Place) (p : Place) (bytes : List UInt8) :
    (placesFrom acc p bytes).toList = acc.toList ++ bytes.scanl Place.next p := by
  induction bytes generalizing acc p with
  | nil => simp [placesFrom]
  | cons b bytes ih =>
    rw [placesFrom, ih, List.scanl_cons, Array.toList_push, List.append_assoc, List.singleton_append]

namespace Source

/-- **Places are told by line feeds.** -/
theorem place_ofBytes {bytes : List UInt8} {offset : Nat} (h : offset ≤ bytes.length) :
    (ofBytes bytes).place offset = ⟨lineAt bytes offset, columnAt bytes offset⟩ := by
  have places : (ofBytes bytes).places[offset]? = some ((bytes.take offset).foldl Place.next ⟨1, 1⟩) := by
    rw [← Array.getElem?_toList, ofBytes, placesFrom_toList, List.nil_append, List.getElem?_scanl, if_pos h]
  rw [place, places, Option.getD_some, foldl_next, lineAt, columnAt]

theorem span_liesIn {bytes : List UInt8} {start stop : Nat} (h : start ≤ stop) (hstop : stop ≤ bytes.length) :
    ((ofBytes bytes).span start stop).LiesIn bytes := by
  have first := place_ofBytes (h.trans hstop)
  have last := place_ofBytes hstop
  rw [span, first, last]
  exact ⟨h, hstop, rfl, rfl, rfl, rfl⟩

end Source

end CallLint
