/-
  ChessEval.Text.Fields — splitting text at blanks.

  A blank is a character with the White_Space property; it has 25 members, the
  zero-width spaces U+200B and U+FEFF not among them. Fields are the maximal runs of
  characters between blanks.
-/

namespace ChessEval.Text

/-- The closed ranges of code points with the White_Space property. -/
def blankRanges : List (Nat × Nat) :=
  [(0x09, 0x0D), (0x20, 0x20), (0x85, 0x85), (0xA0, 0xA0), (0x1680, 0x1680), (0x2000, 0x200A),
   (0x2028, 0x2029), (0x202F, 0x202F), (0x205F, 0x205F), (0x3000, 0x3000)]

def inRanges (ranges : List (Nat × Nat)) (c : Char) : Bool := ranges.any fun r => r.1 ≤ c.toNat && c.toNat ≤ r.2

def isBlank (c : Char) : Bool := inRanges blankRanges c

/-- The nonempty runs between blanks, in order. -/
def fields (cs : List Char) : List (List Char) := (cs.splitOnP isBlank).filter (!·.isEmpty)

example : (blankRanges.map fun r => r.2 - r.1 + 1).sum = 25 := by decide

example : fields [' ', 'a', 'b', ' ', '\u00a0', 'c', '\n'] = [['a', 'b'], ['c']] := by decide

end ChessEval.Text
