/-
Terminal styles. With colors a styled text stands between an escape sequence for its style and one that resets it; a
reset inside the text is followed by the style again. Without colors only the text is left.
-/
import CallLint.Text.Split

namespace CallLint

/-- display attributes by number, as terminals know them -/
structure Style where
  codes : List Nat
deriving DecidableEq, Repr

namespace Style

def bold : Style := ⟨[1]⟩
def dimmed : Style := ⟨[2]⟩
def red : Style := ⟨[31]⟩
def green : Style := ⟨[32]⟩
def yellow : Style := ⟨[33]⟩
def blue : Style := ⟨[34]⟩
def boldCyan : Style := ⟨[1, 36]⟩

def escape (codes : List Char) : List Char :=
  ['\x1b', '['] ++ codes ++ ['m']

def reset : List Char :=
  escape ['0']

/-- the sequence that switches a style on -/
def opening (s : Style) : List Char :=
  escape (Text.joinWith ';' (s.codes.map (Nat.toDigits 10 ·)))

/-- a text with the style switched on again after every reset; `skip` characters belong to the last one -/
def renew (s : Style) : Nat → List Char → List Char
  | _, [] => []
  | skip + 1, c :: cs => c :: ((if skip = 0 then s.opening else []) ++ renew s skip cs)
  | 0, c :: cs =>
    if reset.isPrefixOf (c :: cs) then c :: renew s (reset.length - 1) cs else c :: renew s 0 cs

/-- blanks after a text up to a width -/
def pad (width : Nat) (text : List Char) : List Char :=
  text ++ List.replicate (width - text.length) ' '

/-- a styled text of at least a given width -/
def applyPadded (s : Style) (color : Bool) (width : Nat) (text : String) : String :=
  String.ofList (if color then s.opening ++ pad width (s.renew 0 text.toList) ++ reset else pad width text.toList)

def apply (s : Style) (color : Bool) (text : String) : String :=
  s.applyPadded color 0 text

end Style

end CallLint
