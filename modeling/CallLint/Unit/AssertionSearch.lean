/-
Bounded search for assertions. `asserts u catalog m depth` asks whether the body of method `m`, or of a method reached
through at most `depth` calls within the unit, holds a call that the catalog covers.

The search remembers for each method the largest number of calls left with which it was entered, and does not enter it
again with no more: so no cycle is followed and each body is walked at most `depth + 1` times. It is written over what
any `Memo` can do; the one that is run on is `Explored`.
-/
import CallLint.Unit.Walk
import Std.Data.HashMap

namespace CallLint

/-- how many calls are followed when nothing else is asked for -/
def defaultCallDepth : Nat := 5

/-- What a search remembers. Besides the numbers of calls left, a memo may keep when the walk of a body begins and ends. -/
class Memo (μ : Type) where
  /-- the largest number of calls left with which a method was entered -/
  left? : μ → MethodId → Option Nat
  record : μ → MethodId → Nat → μ
  enter : μ → MethodId → μ
  leave : μ → MethodId → μ

/-- largest number of calls left with which each method was entered -/
abbrev Explored := Std.HashMap MethodId Nat

/-- the numbers of calls left alone are remembered -/
instance : Memo Explored where
  left? explored id := explored[id]?
  record explored id left := explored.insert id left
  enter explored _ := explored
  leave explored _ := explored

/-- an outcome of the search with what it remembers -/
structure SearchResult (μ : Type) where
  found : Bool
  memo : μ

namespace CompilationUnit

variable {μ : Type}

/-- visitor of one body: stops at a covered call, or when `enter` finds something behind a call's target -/
def assertionVisitor (catalog : Catalog) (enter : MethodId → μ → SearchResult μ) : Visitor μ Unit :=
  fun c memo =>
    if catalog.covers c.site then .stop () memo
    else
      match c.target with
      | none => .go memo
      | some target =>
        let r := enter target memo
        if r.found then .stop () r.memo else .go r.memo

variable [Memo μ]

/-- whether a method was already entered with at least `left` calls left -/
def wasExplored (memo : μ) (id : MethodId) (left : Nat) : Bool :=
  match Memo.left? memo id with
  | none => false
  | some seen => left ≤ seen

/-- the search from a method with `left` calls left; `enter` follows a call -/
def searchBody (u : CompilationUnit) (catalog : Catalog) (left : Nat) (enter : MethodId → μ → SearchResult μ)
    (id : MethodId) (memo : μ) : SearchResult μ :=
  if wasExplored memo id left then ⟨false, memo⟩
  else
    let memo := Memo.record memo id left
    match u.body? id with
    | none => ⟨false, memo⟩
    | some body =>
      let flow := walkList (assertionVisitor catalog enter) body (Memo.enter memo id)
      ⟨flow.stopped, Memo.leave flow.state id⟩

/-- the search from a method; with no call left, no call is followed -/
def search (u : CompilationUnit) (catalog : Catalog) : Nat → MethodId → μ → SearchResult μ
  | 0 => u.searchBody catalog 0 fun _ memo => ⟨false, memo⟩
  | left + 1 => u.searchBody catalog (left + 1) (u.search catalog left)

/-- whether an assertion is reached from method `id` through at most `depth` calls -/
def asserts (u : CompilationUnit) (catalog : Catalog) (id : MethodId) (depth : Nat) : Bool :=
  (u.search catalog depth id (∅ : Explored)).found

end CompilationUnit

end CallLint
