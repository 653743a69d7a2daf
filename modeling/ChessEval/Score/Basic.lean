/-
  ChessEval.Score.Basic — scores, and the range kept for forced results.

  Scores are in hundredths of a pawn for the side to move. A mate in n plies scores
  `mate - n`, and below the mates stand the wins that a tablebase proves. Scores from
  `tablebaseWinAtMaxPly` up, and their negatives, are exact and called decisive.
-/

import ChessEval.Board.Basic

namespace ChessEval

namespace Score

def draw : Int := 0

def mate : Int := 32000

/-- The least score of a forced mate. -/
def mateAtMaxPly : Int := mate - maxPly

/-- The score of a tablebase win at the root. -/
def tablebaseWin : Int := mateAtMaxPly - 1

/-- The least score of a tablebase win. -/
def tablebaseWinAtMaxPly : Int := tablebaseWin - maxPly

def isDecisive (score : Int) : Bool := tablebaseWinAtMaxPly ≤ score || score ≤ -tablebaseWinAtMaxPly

end Score

/-- The value of each side's pieces, kings not counted. -/
structure Material where
  white : Int
  black : Int
  deriving DecidableEq, Repr

namespace Material

def zero : Material := ⟨0, 0⟩

def add (m : Material) (p : Piece) : Material :=
  match p.color with
  | .white => { m with white := m.white + p.kind.value }
  | .black => { m with black := m.black + p.kind.value }

def ofPosition (pos : Position) : Material := pos.occupied.foldl (fun m p => m.add p.piece) zero

def total (m : Material) : Int := m.white + m.black

/-- What a side has more than its opponent. -/
def advantage (m : Material) : Color → Int
  | .white => m.white - m.black
  | .black => m.black - m.white

end Material

end ChessEval
