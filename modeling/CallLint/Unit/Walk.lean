/-
Visiting call sites. `walk` carries a state from call to call in document order and stops as soon as the visitor says
so: a call first, then its receiver, its arguments and the anonymous class body it creates. `calls` is the plain list
of the same calls.
-/
import CallLint.Signature.Catalog
import CallLint.Unit.Basic

namespace CallLint

/-- what a visitor answers: go on with a new state, or stop with a result -/
inductive Flow (σ β : Type) where
  | go (state : σ)
  | stop (result : β) (state : σ)
deriving Repr

namespace Flow

/-- what follows is done only when nothing has stopped -/
def andThen {σ β : Type} : Flow σ β → (σ → Flow σ β) → Flow σ β
  | go state, next => next state
  | stop result state, _ => stop result state

def state {σ β : Type} : Flow σ β → σ
  | go state => state
  | stop _ state => state

def stopped {σ β : Type} : Flow σ β → Bool
  | go _ => false
  | stop _ _ => true

end Flow

/-- what to do at one call -/
abbrev Visitor (σ β : Type) := Call Expr → σ → Flow σ β

mutual

def Expr.walk {σ β : Type} (visit : Visitor σ β) : Expr → σ → Flow σ β
  | .literal _, s => .go s
  | .name _ _, s => .go s
  | .fieldAccess target _ _, s => target.walk visit s
  | .binary _ left right, s => (left.walk visit s).andThen (right.walk visit)
  | .call c, s => walkCall visit c s
  | .other _ children, s => walkList visit children s
termination_by structural e => e

/-- the call itself, then its receiver, arguments and anonymous body -/
def walkCall {σ β : Type} (visit : Visitor σ β) : Call Expr → σ → Flow σ β
  | ⟨name, owner, receiver, arguments, body, target, nameSpan, span⟩, s =>
    (visit ⟨name, owner, receiver, arguments, body, target, nameSpan, span⟩ s).andThen fun s =>
      (walkOption visit receiver s).andThen fun s =>
        (walkList visit arguments s).andThen (walkList visit body)
termination_by structural c => c

def walkOption {σ β : Type} (visit : Visitor σ β) : Option Expr → σ → Flow σ β
  | none, s => .go s
  | some e, s => e.walk visit s
termination_by structural o => o

/-- every call under a list of expressions, in document order -/
def walkList {σ β : Type} (visit : Visitor σ β) : List Expr → σ → Flow σ β
  | [], s => .go s
  | e :: es, s => (e.walk visit s).andThen (walkList visit es)
termination_by structural es => es

end

mutual

/-- the calls under an expression, in document order -/
def Expr.calls : Expr → List (Call Expr)
  | .literal _ => []
  | .name _ _ => []
  | .fieldAccess target _ _ => target.calls
  | .binary _ left right => left.calls ++ right.calls
  | .call c => callCalls c
  | .other _ children => listCalls children
termination_by structural e => e

def callCalls : Call Expr → List (Call Expr)
  | ⟨name, owner, receiver, arguments, body, target, nameSpan, span⟩ =>
    ⟨name, owner, receiver, arguments, body, target, nameSpan, span⟩ ::
      (optionCalls receiver ++ listCalls arguments ++ listCalls body)
termination_by structural c => c

def optionCalls : Option Expr → List (Call Expr)
  | none => []
  | some e => e.calls
termination_by structural o => o

def listCalls : List Expr → List (Call Expr)
  | [] => []
  | e :: es => e.calls ++ listCalls es
termination_by structural es => es

end

namespace CompilationUnit

/-- one visitor over all roots, until it stops -/
def walk {σ β : Type} (u : CompilationUnit) (visit : Visitor σ β) (s : σ) : Flow σ β :=
  u.roots.foldl (fun flow root => flow.andThen (walkList visit root)) (.go s)

/-- every call of the unit's roots, in document order -/
def calls (u : CompilationUnit) : List (Call Expr) :=
  (u.walk (β := Empty) (fun c cs => .go (c :: cs)) []).state.reverse

/-- the calls that match a catalog, in document order -/
def matching (u : CompilationUnit) (catalog : Catalog) : List (Call Expr) :=
  (u.walk (β := Empty) (fun c cs => .go (if catalog.covers c.site then c :: cs else cs)) []).state.reverse

end CompilationUnit

end CallLint
