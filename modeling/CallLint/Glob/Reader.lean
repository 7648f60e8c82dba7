/-
Reading of path patterns. Two stars are special only as a whole path component; braces hold alternatives separated by
commas and may nest; brackets hold characters and ranges; a backslash takes the next character as it is.
-/
import CallLint.Glob.Basic
import CallLint.Text.Quoted

namespace CallLint

inductive GlobError where
  | unclosedClass
  | invalidRange (first last : Char)
  | unopenedAlternates
  | unclosedAlternates
  | danglingEscape
deriving DecidableEq, Repr

def GlobError.message : GlobError → String
  | .unclosedClass => "unclosed character class; missing ']'"
  | .invalidRange first last =>
    "invalid range; '" ++ String.singleton first ++ "' > '" ++ String.singleton last ++ "'"
  | .unopenedAlternates => "unopened alternate group; missing '\x7b' (maybe escape '\x7d' with '[\x7d]'?)"
  | .unclosedAlternates => "unclosed alternate group; missing '\x7d' (maybe escape '\x7b' with '[\x7b]'?)"
  | .danglingEscape => "dangling '\\'"

namespace Glob

/-! ## Character classes -/

/-- ranges read so far, newest first, and whether a hyphen waits for the end of the newest one -/
structure ClassState where
  ranges : List (Char × Char)
  open_ : Bool

/-- ends the newest range at a character -/
def closeRange (c : Char) : List (Char × Char) → Except GlobError (List (Char × Char))
  | [] => .ok [(c, c)]
  | (first, _) :: rest => if c < first then .error (.invalidRange first c) else .ok ((first, c) :: rest)

/-- one character of a class that does not end it -/
def ClassState.push (s : ClassState) (isFirst : Bool) (c : Char) : Except GlobError ClassState :=
  if s.open_ then (closeRange c s.ranges).map fun ranges => ⟨ranges, false⟩
  else if c = '-' && !isFirst then .ok { s with open_ := true }
  else .ok ⟨(c, c) :: s.ranges, false⟩

/-- the characters of a class up to its closing bracket, which may not come first; then what follows it -/
def readClassFrom (isFirst : Bool) (s : ClassState) : List Char → Except GlobError (List (Char × Char) × List Char)
  | [] => .error .unclosedClass
  | c :: cs =>
    if c = ']' && !isFirst then
      .ok ((if s.open_ then ('-', '-') :: s.ranges else s.ranges).reverse, cs)
    else do readClassFrom false (← s.push isFirst c) cs

/-- a class whose opening bracket was read, and what follows it -/
def readClass (cs : List Char) : Except GlobError (GlobToken × List Char) :=
  let (negated, body) :=
    match cs with
    | '!' :: rest => (true, rest)
    | '^' :: rest => (true, rest)
    | rest => (false, rest)
  (readClassFrom true ⟨[], false⟩ body).map fun (ranges, rest) => (.charClass negated ranges, rest)

/-! ## Tokens -/

/-- an open brace: the branches that are finished, and the tokens before the brace, newest first -/
structure OpenGroup where
  branches : List (List GlobToken)
  outer : List GlobToken

/-- the tokens of the branch that is being read, newest first, and the open braces, innermost first -/
structure ReadState where
  current : List GlobToken
  groups : List OpenGroup

namespace ReadState

def push (s : ReadState) (t : GlobToken) : ReadState :=
  { s with current := t :: s.current }

def pushStars (s : ReadState) : ReadState :=
  (s.push .star).push .star

def openGroup (s : ReadState) : ReadState :=
  ⟨[], ⟨[], s.current⟩ :: s.groups⟩

/-- the end of a branch, or a plain comma outside of braces -/
def comma (s : ReadState) : ReadState :=
  match s.groups with
  | [] => s.push (.literal ',')
  | g :: rest => ⟨[], { g with branches := g.branches ++ [s.current.reverse] } :: rest⟩

def closeGroup (s : ReadState) : Except GlobError ReadState :=
  match s.groups with
  | [] => .error .unopenedAlternates
  | g :: rest => .ok ⟨.alternates (g.branches ++ [s.current.reverse]) :: g.outer, rest⟩

/-- puts whole components in the place of the token before them, unless that stands for whole components already -/
def replaceLast (s : ReadState) (t : GlobToken) : ReadState :=
  match s.current with
  | .deepStart :: _ => s
  | .deepEnd :: _ => s
  | _ :: rest => { s with current := t :: rest }
  | [] => s.push t

/-- Two stars; `prev` stands before them and `cs` after them. What is left of `cs` comes with the new state. -/
def doubleStar (s : ReadState) (prev : Option Char) (cs : List Char) : ReadState × List Char :=
  if s.current.isEmpty then
    match cs with
    | [] => (s.push .deepStart, [])
    | '/' :: rest => (s.push .deepStart, rest)
    | _ => (s.pushStars, cs)
  else if prev != some '/' && (s.groups.isEmpty || (prev != some ',' && prev != some '\x7b')) then (s.pushStars, cs)
  else
    match cs with
    | [] => (s.replaceLast .deepEnd, [])
    | '/' :: rest => (s.replaceLast .deepMiddle, rest)
    | c :: _ =>
      if (c = ',' || c = '\x7d') && !s.groups.isEmpty then (s.replaceLast .deepEnd, cs) else (s.pushStars, cs)

end ReadState

/-- the last of the characters that were read, when `rest` is left of `cs` -/
def lastRead (prev : Char) (cs rest : List Char) : Char :=
  ((cs.take (cs.length - rest.length)).getLast?).getD prev

/-- reads the tokens from a character on; `prev` stands before it -/
def readFrom : Nat → Option Char → List Char → ReadState → Except GlobError ReadState
  | _, _, [], s => .ok s
  | 0, _, _ :: _, s => .ok s
  | fuel + 1, prev, c :: cs, s =>
    if c = '?' then readFrom fuel (some c) cs (s.push .any)
    else if c = '*' then
      match cs with
      | '*' :: rest =>
        let (s, left) := s.doubleStar prev rest
        readFrom fuel (some (lastRead '*' rest left)) left s
      | _ => readFrom fuel (some c) cs (s.push .star)
    else if c = '[' then do
      let (token, rest) ← readClass cs
      readFrom fuel (some ']') rest (s.push token)
    else if c = '\x7b' then readFrom fuel (some c) cs s.openGroup
    else if c = '\x7d' then do readFrom fuel (some c) cs (← s.closeGroup)
    else if c = ',' then readFrom fuel (some c) cs s.comma
    else if c = '\\' then
      match cs with
      | [] => .error .danglingEscape
      | escaped :: rest => readFrom fuel (some escaped) rest (s.push (.literal escaped))
    else readFrom fuel (some c) cs (s.push (.literal c))

/-- the pattern that a text denotes -/
def read (text : String) : Except GlobError Glob := do
  let cs := text.toList
  let s ← readFrom cs.length none cs ⟨[], []⟩
  if s.groups.isEmpty then return ⟨s.current.reverse⟩ else .error .unclosedAlternates

end Glob

/-- a pattern that could not be read -/
structure InvalidGlob where
  pattern : String
  error : GlobError
deriving DecidableEq, Repr

def InvalidGlob.message (e : InvalidGlob) : String :=
  "invalid excluded_paths pattern " ++ Text.quoted e.pattern ++ ": error parsing glob '" ++ e.pattern ++ "': " ++
    e.error.message

/-- patterns of which any may accept a path -/
structure Globs where
  globs : List Glob
deriving Repr, Inhabited

namespace Globs

/-- all patterns read; the first one that cannot be read is reported -/
def ofPatterns (patterns : List String) : Except InvalidGlob Globs :=
  (patterns.mapM fun p => (Glob.read p).mapError fun e => (⟨p, e⟩ : InvalidGlob)).map Globs.mk

def accepts (s : Globs) (path : List Char) : Bool :=
  s.globs.any (·.accepts (String.ofList path).toUTF8.toList)

end Globs

end CallLint
