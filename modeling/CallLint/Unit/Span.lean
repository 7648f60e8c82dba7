/-
Source locations. Bytes count from 0; lines and columns count from 1, and a column counts bytes.
-/
namespace CallLint

/-- a byte range with the lines and columns of its ends -/
structure Span where
  startByte : Nat
  endByte : Nat
  startLine : Nat
  startColumn : Nat
  endLine : Nat
  endColumn : Nat
deriving DecidableEq, Repr, Inhabited

/-- the start as `line:column` -/
def Span.position (s : Span) : String :=
  toString s.startLine ++ ":" ++ toString s.startColumn

end CallLint
