/-
The order of strings is the order of their bytes. Strings compare character by character, and a smaller character has a
UTF-8 form that is smaller at the first byte where the two differ, whatever follows (`encode_append_lt`). So the order
by characters and the order by bytes are one: `lt_iff_bytes_lt`.
-/
import Mathlib.Data.String.Basic
import Mathlib.Tactic

namespace CallLint.Text

/-- the UTF-8 form of a string -/
def bytes (s : String) : List UInt8 :=
  s.toUTF8.data.toList

theorem bytes_eq (s : String) : bytes s = s.toList.flatMap String.utf8EncodeChar := by
  have encoded : s.toByteArray = s.toList.utf8Encode := by
    rw [← String.toByteArray_ofList, String.ofList_toList]
  rw [bytes, String.toUTF8, encoded, List.utf8Encode, List.toList_data_toByteArray]

/-- the first byte decides, unless it is the same -/
theorem byte_cons_lt {m n : Nat} {as bs : List UInt8} (hn : n < 256) (hle : m ≤ n) (h : m = n → as < bs) :
    UInt8.ofNat m :: as < UInt8.ofNat n :: bs := by
  rw [List.cons_lt_cons_iff]
  rcases hle.lt_or_eq with hlt | rfl
  · left
    rw [UInt8.lt_iff_toNat_lt, UInt8.toNat_ofNat_of_lt' (hlt.trans hn), UInt8.toNat_ofNat_of_lt' hn]
    exact hlt
  · exact .inr ⟨rfl, h rfl⟩

/-- a smaller character is smaller at a byte of its UTF-8 form, whatever follows -/
theorem encode_append_lt {c d : Char} (h : c < d) (as bs : List UInt8) :
    String.utf8EncodeChar c ++ as < String.utf8EncodeChar d ++ bs := by
  have hlt : c.val.toNat < d.val.toNat := h
  have bound : d.val.toNat < 0x110000 := by
    rcases d.valid with hd | hd
    · exact Nat.lt_trans hd (by decide)
    · exact hd.2
  simp only [String.utf8EncodeChar]
  generalize c.val.toNat = v at *
  generalize d.val.toNat = w at *
  split_ifs
  all_goals simp only [List.cons_append, List.nil_append]
  -- a longer form has a greater first byte; forms of one length are digits to the base 64
  all_goals
    repeat refine byte_cons_lt (by omega) (by omega) fun _ => ?_
    omega

theorem encode_ne_nil (c : Char) : String.utf8EncodeChar c ≠ [] := by
  simp only [String.utf8EncodeChar]
  split_ifs <;> exact List.cons_ne_nil _ _

theorem flatMap_encode_lt {as bs : List Char} (h : as < bs) :
    as.flatMap String.utf8EncodeChar < bs.flatMap String.utf8EncodeChar := by
  induction as generalizing bs with
  | nil =>
    obtain ⟨b, bs, rfl⟩ := List.exists_cons_of_ne_nil (l := bs) (by rintro rfl; exact List.not_lt_nil _ h)
    obtain ⟨byte, more, hbyte⟩ := List.exists_cons_of_ne_nil (encode_ne_nil b)
    rw [List.flatMap_cons, hbyte]
    exact List.nil_lt_cons _ _
  | cons a as ih =>
    obtain ⟨b, bs, rfl⟩ := List.exists_cons_of_ne_nil (l := bs) (by rintro rfl; exact List.not_lt_nil _ h)
    rw [List.flatMap_cons, List.flatMap_cons]
    rcases List.cons_lt_cons_iff.1 h with hab | ⟨rfl, hrest⟩
    · exact encode_append_lt hab _ _
    · exact List.append_left_lt (ih hrest)

theorem bytes_lt {a b : String} (h : a < b) : bytes a < bytes b := by
  rw [bytes_eq, bytes_eq]
  exact flatMap_encode_lt (String.lt_iff_toList_lt.1 h)

/-- **Strings are in the order of their bytes.** -/
theorem lt_iff_bytes_lt {a b : String} : a < b ↔ bytes a < bytes b := by
  refine ⟨bytes_lt, fun h => ?_⟩
  rcases lt_trichotomy a b with hlt | rfl | hgt
  · exact hlt
  · exact absurd h (List.lt_asymm h)
  · exact absurd h (List.lt_asymm (bytes_lt hgt))

end CallLint.Text
