/-
White space and trimming. A character is blank when Unicode gives it the property White_Space; the tool's formats
(entries of a custom method list, comment directives, text blocks) all mean this class when they speak of spaces.
-/
namespace CallLint.Text

/-- the 25 characters with the Unicode property White_Space -/
def isBlank (c : Char) : Bool :=
  let n := c.toNat
  (9 ≤ n && n ≤ 13) || n == 0x20 || n == 0x85 || n == 0xA0 || n == 0x1680 || (0x2000 ≤ n && n ≤ 0x200A) ||
    n == 0x2028 || n == 0x2029 || n == 0x202F || n == 0x205F || n == 0x3000

/-- text without its leading blanks -/
def trimStart (cs : List Char) : List Char :=
  cs.dropWhile isBlank

/-- text without its trailing blanks -/
def trimEnd (cs : List Char) : List Char :=
  (cs.reverse.dropWhile isBlank).reverse

/-- text without blanks at either end -/
def trim (cs : List Char) : List Char :=
  trimEnd (trimStart cs)

/-- `trim` on strings -/
def trimmed (s : String) : String :=
  String.ofList (trim s.toList)

/-- nothing but blanks -/
def isBlankText (cs : List Char) : Bool :=
  cs.all isBlank

/-- number of bytes of the UTF-8 form -/
def byteLength (cs : List Char) : Nat :=
  cs.foldl (fun n c => n + c.utf8Size) 0

end CallLint.Text
