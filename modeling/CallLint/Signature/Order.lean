/-
The order of signatures: by owner, then whole names before stems, then by name, then by arity with `any` before `none`
before counts. Strings compare by code point, which is the order of their UTF-8 bytes.

`eq_of_compare`: only equal signatures compare equal. With the instance of `Std.TransCmp` this makes the order linear.
-/
import CallLint.Signature.Basic

namespace CallLint

/-- place of an arity in the order -/
def Arity.rank : Arity → Nat
  | any => 0
  | none => 1
  | exactly n => n + 2

theorem Arity.rank_inj {a b : Arity} (h : a.rank = b.rank) : a = b := by
  cases a <;> cases b <;> simp_all [rank]

/-- whole names come before stems -/
def MethodName.rank : MethodName → Nat
  | exact _ => 0
  | startsWith _ => 1

theorem MethodName.eq_of_rank_text {a b : MethodName} (hr : a.rank = b.rank) (ht : a.text = b.text) : a = b := by
  cases a <;> cases b <;> simp_all [rank, text]

namespace Signature

def compare : Signature → Signature → Ordering :=
  compareLex (compareOn fun s => s.owner)
    (compareLex (compareOn fun s => s.name.rank)
      (compareLex (compareOn fun s => s.name.text) (compareOn fun s => s.arity.rank)))

instance : Std.TransCmp Signature.compare := by
  unfold Signature.compare
  infer_instance

theorem eq_of_compare {a b : Signature} (h : a.compare b = .eq) : a = b := by
  simp only [compare, compareLex, compareOn, Ordering.then_eq_eq, Std.LawfulEqOrd.compare_eq_iff_eq] at h
  obtain ⟨owner, rank, text, arity⟩ := h
  cases a
  cases b
  simp_all only [Signature.mk.injEq]
  exact ⟨trivial, MethodName.eq_of_rank_text rank text, Arity.rank_inj arity⟩

/-- strictly before in the order of signatures -/
def Before (a b : Signature) : Prop :=
  a.compare b = .lt

instance (a b : Signature) : Decidable (Before a b) :=
  inferInstanceAs (Decidable (_ = _))

theorem Before.irrefl (s : Signature) : ¬ s.Before s := by
  have self : s.compare s = .eq := Std.ReflCmp.compare_self
  rw [Before, self]
  exact nofun

theorem Before.trans {a b c : Signature} (hab : Before a b) (hbc : Before b c) : Before a c :=
  Std.TransCmp.lt_trans hab hbc

end Signature

end CallLint
