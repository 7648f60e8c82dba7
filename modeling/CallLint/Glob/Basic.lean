/-
Path patterns. A pattern is a sequence of tokens over the bytes of a path: `?` takes one byte and `*` any number,
slashes among them; two stars that form a whole path component take whole components.

Matching is on sets of what is left: `rests t s` lists the suffixes of `s` that may follow the token `t`.
-/
namespace CallLint

inductive GlobToken where
  | literal (c : Char)
  /-- one byte -/
  | any
  /-- any bytes -/
  | star
  /-- any components at the start, each with its slash -/
  | deepStart
  /-- a slash and everything after it -/
  | deepEnd
  /-- a slash, or components between two slashes -/
  | deepMiddle
  /-- one byte of some ranges, or of none of them -/
  | charClass (negated : Bool) (ranges : List (Char × Char))
  | alternates (branches : List (List GlobToken))
deriving Repr, Inhabited

/-- bytes of a character in UTF-8 -/
def charBytes (c : Char) : List UInt8 :=
  (String.singleton c).toUTF8.toList

/-- what is left of a path -/
abbrev Rest := List UInt8

namespace Rest

def slash : UInt8 := 47

/-- all suffixes, the text itself included -/
def suffixes : Rest → List Rest
  | [] => [[]]
  | b :: bs => (b :: bs) :: suffixes bs

/-- what follows each slash -/
def afterSlashes : Rest → List Rest
  | [] => []
  | b :: bs => if b = slash then bs :: afterSlashes bs else afterSlashes bs

/-- what follows given bytes, when the text starts with them -/
def after (bytes : List UInt8) (s : Rest) : List Rest :=
  if bytes.isPrefixOf s then [s.drop bytes.length] else []

/-- suffixes of one text, each length once -/
def distinct : List Rest → List Rest
  | [] => []
  | s :: ss => if (distinct ss).any (·.length == s.length) then distinct ss else s :: distinct ss

end Rest

namespace GlobToken

/-- whether a byte is in a range of characters; of characters with several bytes only the bytes in the middle span it -/
def rangeHolds (b : UInt8) (range : Char × Char) : Bool :=
  let first := charBytes range.1
  let last := charBytes range.2
  if range.1 = range.2 then first.contains b
  else
    first.dropLast.contains b || last.tail.contains b ||
      ((first.getLast?.any (· ≤ b)) && (last.head?.any (b ≤ ·)))

def classHolds (negated : Bool) (ranges : List (Char × Char)) (b : UInt8) : Bool :=
  ranges.any (rangeHolds b) != negated

mutual

/-- whether a token takes nothing because it holds nothing -/
def isVoid : GlobToken → Bool
  | alternates branches => allVoid branches
  | _ => false
termination_by structural t => t

def allVoid : List (List GlobToken) → Bool
  | [] => true
  | branch :: branches => branchVoid branch && allVoid branches
termination_by structural bs => bs

def branchVoid : List GlobToken → Bool
  | [] => true
  | t :: ts => isVoid t && branchVoid ts
termination_by structural ts => ts

end

mutual

/-- what may be left of a text after a token -/
def rests : GlobToken → Rest → List Rest
  | literal c, s => s.after (charBytes c)
  | any, s => if s.isEmpty then [] else [s.tail]
  | star, s => s.suffixes
  | deepStart, s => s :: (s.after [Rest.slash] ++ s.afterSlashes)
  | deepEnd, s => (s.after [Rest.slash]).flatMap Rest.suffixes
  | deepMiddle, s => (s.after [Rest.slash]).flatMap fun r => r :: r.afterSlashes
  | charClass negated ranges, s =>
    match s with
    | [] => []
    | b :: bs => if classHolds negated ranges b then [bs] else []
  | alternates branches, s => if allVoid branches then [s] else branchRests branches s
termination_by structural t => t

/-- what may be left after one of some branches; branches that hold nothing do not count -/
def branchRests : List (List GlobToken) → Rest → List Rest
  | [], _ => []
  | branch :: branches, s =>
    (if branchVoid branch then [] else restsAll branch [s]) ++ branchRests branches s
termination_by structural bs => bs

/-- what may be left after all tokens, from one of some texts -/
def restsAll : List GlobToken → List Rest → List Rest
  | [], ss => ss
  | t :: ts, ss => restsAll ts (Rest.distinct (ss.flatMap (rests t)))
termination_by structural ts => ts

end

end GlobToken

/-- a pattern for whole paths -/
structure Glob where
  tokens : List GlobToken
deriving Repr, Inhabited

namespace Glob

def literalChar? : GlobToken → Option Char
  | .literal c => some c
  | _ => none

/-- the text of tokens that are all literal -/
def literalText? (ts : List GlobToken) : Option (List Char) :=
  ts.mapM literalChar?

/-- a name at any depth: components at the start, then a literal text without a slash -/
def isNamePattern : List GlobToken → Bool
  | .deepStart :: t :: ts => (literalText? (t :: ts)).any fun name => !name.contains '/'
  | _ => false

/-- any name with an extension, at any depth: `*.` and a literal text without points and slashes -/
def isExtensionPattern (ts : List GlobToken) : Bool :=
  let rest :=
    match ts with
    | .deepStart :: rest => rest
    | rest => rest
  match rest with
  | .star :: .literal '.' :: ext => (literalText? ext).any fun name => !name.contains '.' && !name.contains '/'
  | _ => false

/-- one star or components at the start, and literals after them, or literals alone -/
def isSuffixPattern : List GlobToken → Bool
  | .deepStart :: .star :: ts => (literalText? ts).isSome
  | .deepStart :: ts => (literalText? ts).isSome
  | .star :: ts => (literalText? ts).isSome
  | ts => (literalText? ts).isSome

/-- literals of an extension at the end, in reverse: a point before any slash -/
def endsInExtension : List GlobToken → Bool
  | .literal c :: ts => c == '.' || (c != '/' && endsInExtension ts)
  | _ => false

/-- whether the pattern is looked up by the name of a file, and not by its whole path -/
def isByName (g : Glob) : Bool :=
  isNamePattern g.tokens || isExtensionPattern g.tokens ||
    (!isSuffixPattern g.tokens && endsInExtension g.tokens.reverse)

/-- Whether a pattern accepts a path. A path that ends in a point has no file name, so patterns that go by the name do
not accept it. Components at the start alone accept everything. -/
def accepts (g : Glob) (path : List UInt8) : Bool :=
  match g.tokens with
  | [.deepStart] => true
  | ts =>
    if path.getLast? = some 46 && g.isByName then false
    else (GlobToken.restsAll ts [path]).any (·.isEmpty)

end Glob

end CallLint
