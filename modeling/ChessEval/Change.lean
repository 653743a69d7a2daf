/-
  ChessEval.Change — pieces on squares, and the change that one move makes to them.

  A change lists the pieces that left a square and those that arrived on one, in the
  order in which they were recorded. It has room for two of each: the mover with the
  piece taken or the castling rook, and the mover (or what it became) with the rook.
-/

import ChessEval.Fault
import ChessEval.Piece
import ChessEval.Square

namespace ChessEval

structure PlacedPiece (α : Type := Square) where
  piece : Piece
  square : α
  deriving DecidableEq, Repr

/-- The piece as the other side would see its own. -/
def PlacedPiece.flip (p : PlacedPiece) : PlacedPiece := ⟨p.piece.recolored, p.square.flip⟩

structure Change (α : Type := Square) where
  removed : List (PlacedPiece α)
  added : List (PlacedPiece α)
  deriving DecidableEq, Repr

namespace Change

/-- Room for removals, and for additions. -/
def capacity : Nat := 2

def empty : Change := ⟨[], []⟩

def isEmpty (c : Change) : Bool := c.removed.isEmpty && c.added.isEmpty

def remove (c : Change) (p : PlacedPiece) : Except Fault Change :=
  if c.removed.length < capacity then .ok { c with removed := c.removed ++ [p] } else .error .tooManyRemoved

def add (c : Change) (p : PlacedPiece) : Except Fault Change :=
  if c.added.length < capacity then .ok { c with added := c.added ++ [p] } else .error .tooManyAdded

def flip (c : Change) : Change := ⟨c.removed.map PlacedPiece.flip, c.added.map PlacedPiece.flip⟩

end Change

end ChessEval
