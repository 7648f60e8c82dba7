/-
Tokens of Java source text. Words are names and keywords alike: which words are keywords depends on where they stand.
Angle brackets that close are tokens of one character each, since only the grammar tells a shift from the end of type
arguments. A string is an opening and a closing quote with the tokens of its embedded expressions between them; its
plain content makes no token.
-/
namespace CallLint

inductive TokenKind where
  /-- a name or a keyword -/
  | word (text : String)
  /-- an operator or a separator -/
  | mark (text : String)
  | decimalInteger
  | hexInteger
  | octalInteger
  | binaryInteger
  | decimalFloat
  | hexFloat
  | character
  | quoteOpen
  | quoteClose
  | spliceOpen
  | spliceClose
deriving DecidableEq, Repr, Inhabited

/-- a comment's byte range -/
structure Comment where
  start : Nat
  stop : Nat
  /-- from two slashes to the end of the line -/
  isLine : Bool
deriving DecidableEq, Repr, Inhabited

structure Token where
  kind : TokenKind
  start : Nat
  stop : Nat
  /-- the comments between the previous token and this one -/
  comments : List Comment
deriving DecidableEq, Repr, Inhabited

/-- the tokens of a file with the comments after the last one -/
structure Tokens where
  tokens : List Token
  trailing : List Comment
deriving Repr, Inhabited

end CallLint
