/-
Scalars of YAML: a text and the style in which it is written. In the styles that run over lines, a line end between two
words stands for one blank, and each line end after it for itself.
-/
import CallLint.Yaml.Cursor

namespace CallLint.Yaml

inductive ScalarStyle where
  | plain
  | singleQuoted
  | doubleQuoted
  | literal
  | folded
deriving DecidableEq, Repr, Inhabited

structure Scalar where
  text : String
  style : ScalarStyle
deriving DecidableEq, Repr, Inhabited

namespace Scalar

/-- what stands where nothing is written -/
def missing : Scalar := ⟨"", .plain⟩

/-- what a run of blanks and line ends between two words stands for; `escaped` says that its first line end was escaped
and is not part of the run -/
def fold (escaped : Bool) (run : List Char) : List Char :=
  match escaped, run.filter isBreak with
  | false, [] => run
  | false, first :: more => if first != '\n' then first :: more else if more.isEmpty then [' '] else more
  | true, breaks => breaks

end Scalar

end CallLint.Yaml
