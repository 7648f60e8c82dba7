/-
Character classes given by ranges of code points, both ends included.
-/
namespace CallLint.Text

def inRanges (ranges : List (Nat × Nat)) (c : Char) : Bool :=
  ranges.any fun (first, last) => first ≤ c.toNat && c.toNat ≤ last

end CallLint.Text
