/-
The written form of custom methods: a comma separated list of `Owner#member` entries. A member that ends in a star
matches every method whose name starts with what precedes the star, and `<init>` denotes constructors.

Each entry is read on its own: a malformed one is rejected with its cause, and the others still count.
-/
import CallLint.Signature.Catalog
import CallLint.Text.Blank
import CallLint.Text.Split

namespace CallLint

/-- why an entry is rejected -/
inductive EntryError where
  | separators (found : Nat)
  | emptyOwner
  | emptyMember
  | spaceAroundSeparator
  | innerBlank
  | misplacedWildcard
deriving DecidableEq, Repr

def EntryError.message : EntryError → String
  | separators found => "expected exactly one '#' separator, found " ++ toString found
  | emptyOwner => "owner type is empty"
  | emptyMember => "method name is empty"
  | spaceAroundSeparator => "whitespace around the '#' separator"
  | innerBlank => "whitespace inside the owner type or method name"
  | misplacedWildcard => "'*' is only allowed at the end of the method name"

/-- an entry that was rejected, as written -/
structure RejectedEntry where
  token : String
  reason : EntryError
deriving DecidableEq, Repr

def RejectedEntry.message (r : RejectedEntry) : String :=
  "Unable to create a corresponding matcher for custom assertion method, " ++
    "please check the format of the following symbol: '" ++ r.token ++ "'"

namespace Signature

/-- a star at the end makes the name a stem -/
def readMember (member : List Char) : Except EntryError MethodName :=
  match Text.dropTrailing ['*'] member with
  | some stem =>
    if stem.isEmpty then .error .emptyMember
    else if '*' ∈ stem then .error .misplacedWildcard
    else .ok (.startsWith (String.ofList stem))
  | none =>
    if '*' ∈ member then .error .misplacedWildcard
    else .ok (.exact (String.ofList member))

/-- one entry without the blanks around it -/
def readTrimmed (entry : List Char) : Except EntryError Signature :=
  match Text.splitAt '#' entry with
  | [owner, member] =>
    if Text.isBlankText owner then .error .emptyOwner
    else if Text.isBlankText member then .error .emptyMember
    else if (owner.getLast?.any Text.isBlank) || (member.head?.any Text.isBlank) then .error .spaceAroundSeparator
    else if owner.any Text.isBlank || member.any Text.isBlank then .error .innerBlank
    else (readMember member).map fun name => ⟨String.ofList owner, name, .any⟩
  | parts => .error (.separators (parts.length - 1))

/-- one entry; blanks around it do not count -/
def read (token : String) : Except EntryError Signature :=
  readTrimmed (Text.trim token.toList)

end Signature

/-- what a list of entries contributes: its signatures and its rejected entries, both in order of writing -/
structure EntryList where
  signatures : List Signature
  rejected : List RejectedEntry
deriving DecidableEq, Repr

namespace EntryList

/-- one token: nothing when blank, else a signature or a rejection -/
def ofToken (token : List Char) : EntryList :=
  if Text.isBlankText token then ⟨[], []⟩
  else
    match Signature.read (String.ofList token) with
    | .ok s => ⟨[s], []⟩
    | .error reason => ⟨[], [⟨String.ofList token, reason⟩]⟩

def append (a b : EntryList) : EntryList :=
  ⟨a.signatures ++ b.signatures, a.rejected ++ b.rejected⟩

def ofTokens : List (List Char) → EntryList
  | [] => ⟨[], []⟩
  | token :: tokens => (ofToken token).append (ofTokens tokens)

/-- the entries of a comma separated text -/
def read (spec : String) : EntryList :=
  ofTokens (Text.splitAt ',' spec.toList)

def catalog (l : EntryList) : Catalog :=
  Catalog.ofList l.signatures

end EntryList

end CallLint
