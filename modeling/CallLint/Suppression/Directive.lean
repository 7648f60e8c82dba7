/-
Directives in comments. `// callmatch:ignore KEY - reason` and its block form name a rule and may give a reason; the
word NOSONAR after two slashes silences every rule. On each line the line form is looked for first, then the block form,
then NOSONAR, and of several places the first one counts.

A key is a longest run of characters that are not blank. In a block comment it may be cut short, so that the comment can
end right after it.
-/
import CallLint.Text.Blank
import CallLint.Text.Split
import CallLint.Text.Class.Word

namespace CallLint

inductive DirectiveKind where
  | ignore
  | ignoreNextLine
  | ignoreFile
deriving DecidableEq, Repr, Inhabited

/-- what a comment says -/
structure Directive where
  kind : DirectiveKind
  rule : String
  reason : String
deriving DecidableEq, Repr, Inhabited

/-- a directive with what is known of the text before it -/
structure PlacedDirective where
  /-- nothing but blanks stands before the comment -/
  alone : Bool
  directive : Directive
deriving DecidableEq, Repr, Inhabited

namespace Directive

def isWordless (c : Char) : Bool :=
  !Text.isBlank c

/-- the text after the comment's opening up to the key: the kind and what follows the blanks after it -/
def readKind? (cs : List Char) : Option (DirectiveKind × List Char) :=
  let kinds : List (String × DirectiveKind) :=
    [("ignore-file", .ignoreFile), ("ignore-next-line", .ignoreNextLine), ("ignore", .ignore)]
  (Text.dropLeading "callmatch:".toList (Text.trimStart cs)).bind fun body =>
    kinds.findSome? fun (word, kind) =>
      match Text.dropLeading word.toList body with
      | some (c :: rest) => if Text.isBlank c then some (kind, Text.trimStart rest) else none
      | _ => none

/-- what follows a key in a line comment: a reason after a hyphen, or anything else -/
def lineReason (cs : List Char) : List Char :=
  match Text.trimStart cs with
  | '-' :: rest => Text.trim rest
  | _ => []

/-- a directive in a line comment, read from the slashes on -/
def readLine? (cs : List Char) : Option Directive :=
  match Text.dropLeading ['/', '/'] cs with
  | none => none
  | some rest =>
    match readKind? rest with
    | none => none
    | some (kind, body) =>
      let key := body.takeWhile isWordless
      if key.isEmpty then none
      else some ⟨kind, String.ofList key, String.ofList (lineReason (body.drop key.length))⟩

/-- the text up to the first star and slash -/
def beforeClose? : List Char → Option (List Char)
  | [] => none
  | c :: cs => if ['*', '/'].isPrefixOf (c :: cs) then some [] else (beforeClose? cs).map (c :: ·)

/-- what follows a key in a block comment: a reason after a hyphen and the comment's end, or its end alone -/
def blockReason? (cs : List Char) : Option (List Char) :=
  match Text.trimStart cs with
  | '-' :: rest => (beforeClose? rest).map Text.trim
  | rest => if ['*', '/'].isPrefixOf rest then some [] else none

/-- the longest key of at most `n` characters with a comment's end in the right place after it -/
def blockKey? (body : List Char) : Nat → Option (List Char × List Char)
  | 0 => none
  | n + 1 =>
    match blockReason? (body.drop (n + 1)) with
    | some reason => some (body.take (n + 1), reason)
    | none => blockKey? body n

/-- a directive in a block comment, read from the opening on -/
def readBlock? (cs : List Char) : Option Directive :=
  match Text.dropLeading ['/', '*'] cs with
  | none => none
  | some rest =>
    match readKind? rest with
    | none => none
    | some (kind, body) =>
      (blockKey? body (body.takeWhile isWordless).length).map fun (key, reason) =>
        ⟨kind, String.ofList key, String.ofList reason⟩

/-- the first place at which a directive can be read; `alone` tells of the text before it -/
def first? (read : List Char → Option Directive) : Bool → List Char → Option PlacedDirective
  | alone, [] => (read []).map fun d => ⟨alone, d⟩
  | alone, c :: cs =>
    match read (c :: cs) with
    | some d => some ⟨alone, d⟩
    | none => first? read (alone && Text.isBlank c) cs

/-- the directive of a line -/
def ofLine? (line : List Char) : Option PlacedDirective :=
  (first? readLine? true line).or (first? readBlock? true line)

/-! ## NOSONAR -/

def silencer : List Char := "NOSONAR".toList

/-- whether the word starts here; `before` is the character before it -/
def silencerHere (before : Option Char) (cs : List Char) : Bool :=
  !(before.any Text.isWord) && silencer.isPrefixOf cs && !((cs.drop silencer.length).head?.any Text.isWord)

/-- what follows the last occurrence of the word -/
def afterSilencer? : Option Char → List Char → Option (List Char)
  | _, [] => none
  | before, c :: cs =>
    match afterSilencer? (some c) cs with
    | some rest => some rest
    | none => if silencerHere before (c :: cs) then some ((c :: cs).drop silencer.length) else none

/-- the reason after the last whole word NOSONAR behind the first two slashes of a line -/
def silencerReason? : List Char → Option String
  | '/' :: '/' :: rest => (afterSilencer? (some '/') rest).map fun reason => String.ofList (Text.trim reason)
  | [] => none
  | _ :: rest => silencerReason? rest

end Directive

end CallLint
