/-
  ChessEval.Color — the two sides of the game.
-/

namespace ChessEval

inductive Color where
  | white
  | black
  deriving DecidableEq, Repr

namespace Color

def opponent : Color → Color
  | white => black
  | black => white

def index : Color → Fin 2
  | white => 0
  | black => 1

def name : Color → String
  | white => "White"
  | black => "Black"

/-- The change of square index when this side's pawn steps one rank. -/
def forward : Color → Int
  | white => 8
  | black => -8

@[simp] theorem opponent_opponent (c : Color) : c.opponent.opponent = c := by cases c <;> rfl

theorem opponent_eq_iff {c d : Color} : c.opponent = d ↔ c ≠ d := by cases c <;> cases d <;> simp [opponent]

end Color

end ChessEval
