/-
Suppressions: which findings the comments of a file silence. A directive alone on its line covers the next line, one
beside code its own line, and a file directive the whole file; a file directive counts only in the comments at the top
of the file or on its first lines.

`split` divides findings into those that stay active and those that are suppressed, each of these with the first
suppression that covers it.
-/
import CallLint.Finding.Basic
import CallLint.Suppression.Directive
import CallLint.Text.Line

namespace CallLint

inductive SuppressionScope where
  | line
  | nextLine
  | file
deriving DecidableEq, Repr, Inhabited

def SuppressionScope.render : SuppressionScope → String
  | .line => "line"
  | .nextLine => "nextline"
  | .file => "file"

def SuppressionScope.read? (word : String) : Option SuppressionScope :=
  [SuppressionScope.line, .nextLine, .file].find? fun s => s.render == word

structure Suppression where
  /-- key of the rule, or a star for all rules -/
  rule : String
  reason : String
  file : String
  /-- line of the directive; 0 when it covers the whole file -/
  line : Nat
  scope : SuppressionScope
deriving DecidableEq, Repr, Inhabited

structure SuppressedFinding where
  finding : Finding
  suppression : Suppression
deriving DecidableEq, Repr, Inhabited

/-- up to this line file directives count wherever they stand -/
def fileDirectiveLines : Nat := 10

namespace Suppression

/-- blank lines and lines that start like a comment -/
def isHeaderLine (line : List Char) : Bool :=
  let text := Text.trim line
  text.isEmpty || ['/', '/'].isPrefixOf text || ['/', '*'].isPrefixOf text || ['*'].isPrefixOf text

/-- the suppression that a directive on a line makes -/
def ofDirective? (file : String) (number : Nat) (inHeader : Bool) (p : PlacedDirective) : Option Suppression :=
  let d := p.directive
  match d.kind with
  | .ignoreFile =>
    if inHeader || number ≤ fileDirectiveLines then some ⟨d.rule, d.reason, file, 0, .file⟩ else none
  | .ignoreNextLine => some ⟨d.rule, d.reason, file, number, .nextLine⟩
  | .ignore => some ⟨d.rule, d.reason, file, number, if p.alone then .nextLine else .line⟩

/-- the suppression of one line, if it has one -/
def ofLine? (file : String) (number : Nat) (inHeader : Bool) (line : List Char) : Option Suppression :=
  match Directive.ofLine? line with
  | some p => ofDirective? file number inHeader p
  | none => (Directive.silencerReason? line).map fun reason => ⟨"*", reason, file, number, .line⟩

/-- suppressions of the lines from a number on; the header lasts as long as its lines do -/
def ofLines (file : String) : Nat → Bool → List (List Char) → List Suppression
  | _, _, [] => []
  | number, inHeader, line :: rest =>
    let inHeader := inHeader && isHeaderLine line
    (ofLine? file number inHeader line).toList ++ ofLines file (number + 1) inHeader rest

/-- all suppressions of a file's text -/
def ofText (file content : String) : List Suppression :=
  ofLines file 1 true (Text.lines content.toList)

/-- whether the keys are the same but for the case of ASCII letters -/
def sameKey (a b : String) : Bool :=
  a.toLower == b.toLower

def covers (s : Suppression) (f : Finding) : Bool :=
  f.file == s.file && (s.rule == "*" || sameKey s.rule f.rule) &&
    match s.scope with
    | .file => true
    | .line => f.line == s.line
    | .nextLine => f.line == s.line + 1

/-- findings that nothing covers, and the others with the first suppression that covers them -/
def split (suppressions : List Suppression) : List Finding → List Finding × List SuppressedFinding
  | [] => ([], [])
  | f :: fs =>
    let (active, suppressed) := split suppressions fs
    match suppressions.find? (·.covers f) with
    | some s => (active, ⟨f, s⟩ :: suppressed)
    | none => (f :: active, suppressed)

end Suppression

end CallLint
