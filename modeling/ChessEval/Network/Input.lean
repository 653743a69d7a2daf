/-
  ChessEval.Network.Input — the input of a network that a piece on a square switches on.

  A network sees the board from one side at a time. From that side the viewer's own
  pieces take the first 384 inputs and the opponent's the rest; within a half, each kind
  has 64 inputs, one per square. Black sees the board flipped.
  - `input_flip`: the flipped piece switches on the same input, seen from the other side.
-/

import ChessEval.Change

namespace ChessEval

/-- Inputs of one kind of piece. -/
def kindStride : Nat := 64

/-- Inputs of one side's pieces. -/
def colorStride : Nat := 6 * kindStride

/-- Inputs of a network. -/
abbrev inputSize : Nat := 768

/-- The square as the viewer sees it. -/
def Square.seenBy (s : Square) : Color → Square
  | .white => s
  | .black => s.flip

def PlacedPiece.input (p : PlacedPiece) (viewer : Color) : Fin inputSize :=
  ⟨(if p.piece.color = viewer then 0 else colorStride) + p.piece.kind.index * kindStride + (p.square.seenBy viewer).index, by
    have h := p.piece.kind.index.isLt
    have h' := (p.square.seenBy viewer).index.isLt
    simp only [colorStride, kindStride, inputSize]
    split <;> omega⟩

theorem Square.seenBy_flip (s : Square) (c : Color) : s.flip.seenBy c = s.seenBy c.opponent := by
  cases c <;> simp [seenBy, Color.opponent]

theorem PlacedPiece.input_flip (p : PlacedPiece) (c : Color) : p.flip.input c = p.input c.opponent := by
  have h : (p.piece.color.opponent = c) = (p.piece.color = c.opponent) := by
    cases p.piece.color <;> cases c <;> simp [Color.opponent]
  simp only [input, flip, Piece.recolored, Square.seenBy_flip, h]

end ChessEval
