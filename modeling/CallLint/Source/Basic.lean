/-
Source text: the bytes of a file, the text of a byte range, and the lines and columns of byte offsets. Lines end at a
line feed and columns count bytes, so a position depends on the bytes before it alone.
-/
import CallLint.Text.Utf8
import CallLint.Unit.Span

namespace CallLint

/-- line and column of an offset, both from 1 -/
structure Place where
  line : Nat
  column : Nat
deriving DecidableEq, Repr, Inhabited

/-- the place after one more byte -/
def Place.next (p : Place) (b : UInt8) : Place :=
  if b = 10 then ⟨p.line + 1, 1⟩ else ⟨p.line, p.column + 1⟩

/-- the places of all offsets, from the start to the end of the bytes -/
def placesFrom (acc : Array Place) (p : Place) : List UInt8 → Array Place
  | [] => acc.push p
  | b :: rest => placesFrom (acc.push p) (p.next b) rest

/-- the bytes of a file -/
structure Source where
  bytes : Array UInt8
  /-- the places of the offsets from 0 to the number of bytes -/
  places : Array Place := placesFrom #[] ⟨1, 1⟩ bytes.toList
deriving Inhabited

namespace Source

def ofBytes (bytes : List UInt8) : Source :=
  { bytes := bytes.toArray }

def ofString (s : String) : Source :=
  ofBytes s.toUTF8.toList

def glyphs (s : Source) : List Text.Glyph :=
  Text.glyphs s.bytes.toList

/-- text from one offset to another; empty when the bytes are no text -/
def slice (s : Source) (start stop : Nat) : String :=
  (Text.decode? (s.bytes.extract start stop).toList).getD ""

/-- the whole text, with replacements where the bytes are no text -/
def lossyText (s : Source) : String :=
  Text.decodeLossy s.bytes.toList

/-- line and column of an offset; offsets past the end have no meaning -/
def place (s : Source) (offset : Nat) : Place :=
  s.places[offset]?.getD ⟨1, 1⟩

def span (s : Source) (start stop : Nat) : Span :=
  let a := s.place start
  let b := s.place stop
  ⟨start, stop, a.line, a.column, b.line, b.column⟩

end Source

end CallLint
