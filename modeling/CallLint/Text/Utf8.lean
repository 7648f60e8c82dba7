/-
Reading bytes as UTF-8 text. `glyphs` keeps the byte width of each character and stands in a replacement of width one
for each byte that belongs to no character; `decodeLossy` gives text with one replacement for each maximal ill-formed
piece; `decode?` gives text only when all bytes are well formed.
-/
namespace CallLint.Text

/-- stands for what is no character -/
def replacement : Char := '\uFFFD'

/-- a character together with the number of bytes it takes in its file -/
structure Glyph where
  char : Char
  width : Nat
deriving DecidableEq, Repr, Inhabited

/-- a byte that continues a character -/
def isContinuation (b : UInt8) : Bool :=
  0x80 ≤ b && b ≤ 0xBF

/-- low six bits -/
def continuationBits (b : UInt8) : Nat :=
  b.toNat % 0x40

/-- range of the byte after a leading byte, for a well-formed character of three or four bytes -/
def secondByteFits (lead second : UInt8) : Bool :=
  if lead == 0xE0 then 0xA0 ≤ second && second ≤ 0xBF
  else if lead == 0xED then 0x80 ≤ second && second ≤ 0x9F
  else if lead == 0xF0 then 0x90 ≤ second && second ≤ 0xBF
  else if lead == 0xF4 then 0x80 ≤ second && second ≤ 0x8F
  else isContinuation second

/-- a well-formed character at the front -/
def readGlyph : List UInt8 → Option Glyph
  | [] => none
  | a :: rest =>
    if a < 0x80 then some ⟨Char.ofNat a.toNat, 1⟩
    else
      match rest with
      | [] => none
      | b :: rest =>
        if 0xC2 ≤ a && a ≤ 0xDF then
          if isContinuation b then some ⟨Char.ofNat (a.toNat % 0x20 * 0x40 + continuationBits b), 2⟩ else none
        else if 0xE0 ≤ a && a ≤ 0xF4 && secondByteFits a b then
          match rest with
          | [] => none
          | c :: rest =>
            if !isContinuation c then none
            else if a < 0xF0 then
              some ⟨Char.ofNat (a.toNat % 0x10 * 0x1000 + continuationBits b * 0x40 + continuationBits c), 3⟩
            else
              match rest with
              | [] => none
              | d :: _ =>
                if isContinuation d then
                  some ⟨Char.ofNat (a.toNat % 0x08 * 0x40000 + continuationBits b * 0x1000 + continuationBits c * 0x40
                    + continuationBits d), 4⟩
                else none
        else none

/-- number of bytes of the longest start of a character at the front of ill-formed bytes; at least one -/
def illFormedLength : List UInt8 → Nat
  | a :: b :: rest =>
    if 0xE0 ≤ a && a ≤ 0xF4 && secondByteFits a b then
      match rest with
      | c :: _ => if 0xF0 ≤ a && isContinuation c then 3 else 2
      | [] => 2
    else 1
  | _ => 1

/-- the glyphs of bytes, after skipping the first `skip` of them -/
def glyphsFrom (acc : Array Glyph) : Nat → List UInt8 → Array Glyph
  | _, [] => acc
  | skip + 1, _ :: rest => glyphsFrom acc skip rest
  | 0, b :: rest =>
    match readGlyph (b :: rest) with
    | some g => glyphsFrom (acc.push g) (g.width - 1) rest
    | none => glyphsFrom (acc.push ⟨replacement, 1⟩) 0 rest

def glyphs (bytes : List UInt8) : List Glyph :=
  (glyphsFrom #[] 0 bytes).toList

def decodeLossyFrom (acc : Array Char) : Nat → List UInt8 → Array Char
  | _, [] => acc
  | skip + 1, _ :: rest => decodeLossyFrom acc skip rest
  | 0, b :: rest =>
    match readGlyph (b :: rest) with
    | some g => decodeLossyFrom (acc.push g.char) (g.width - 1) rest
    | none => decodeLossyFrom (acc.push replacement) (illFormedLength (b :: rest) - 1) rest

/-- text with one replacement for each maximal ill-formed piece -/
def decodeLossy (bytes : List UInt8) : String :=
  String.ofList (decodeLossyFrom #[] 0 bytes).toList

/-- the text of bytes that are all well formed -/
def decode? (bytes : List UInt8) : Option String :=
  let gs := glyphs bytes
  if gs.all fun g => g.char.utf8Size == g.width then some (String.ofList (gs.map (·.char))) else none

end CallLint.Text
