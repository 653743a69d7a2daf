/-
  ChessEval.Board.Play — playing a move on a board and taking it back.

  Moves are not checked for legality. A pawn that changes file onto an empty en passant
  target takes the piece behind the target; any other move takes what stands on its
  target, of either colour. A king that goes two files from its home square along its
  back rank without taking castles if its own rook stands in the corner and the square
  beside the king's home is free once the king has moved. Only two things are refused:
  moving from an empty square, and taking a king.

  Playing returns the new board, the change in pieces, and an undo that holds every
  field the move overwrites. What a move reads and writes, and in which order, is
  written down once (`Access`), whatever stands for squares and wherever the pieces are kept.
-/

import ChessEval.Board.Basic
import ChessEval.Board.Move

namespace ChessEval

inductive MoveError (α : Type := Square) where
  | emptyOrigin (square : α)
  | kingCapture (square : α)
  deriving DecidableEq, Repr

namespace MoveError

/-- The name under which the error is reported. -/
def label : MoveError → String
  | emptyOrigin _ => "EmptyOrigin"
  | kingCapture _ => "KingCapture"

def message : MoveError → String
  | emptyOrigin s => s!"No piece on origin square {s.name}"
  | kingCapture s => s!"Move would capture the king on {s.name}"

end MoveError

/-- The rook's part of castling. -/
structure RookMove (α : Type := Square) where
  origin : α
  target : α
  deriving DecidableEq, Repr

structure Undo (α : Type := Square) where
  move : Move α
  moved : Piece
  captured : Option (PlacedPiece α)
  rook : Option (RookMove α)
  enPassant : Option α
  castling : CastlingRights
  halfmoveClock : UInt32
  fullmoveNumber : UInt32
  deriving DecidableEq, Repr

structure Played (α : Type := Square) where
  board : Board α
  change : Change α
  undo : Undo α
  deriving DecidableEq, Repr

/-! ## Pieces -/

/-- What a move does to the pieces, which are kept in `σ`. -/
structure Moved (α σ : Type) where
  cells : σ
  mover : Piece
  captured : Option (PlacedPiece α)
  rook : Option (RookMove α)

/-- How the pieces kept in `σ` are reached by squares in a calculation of `μ`. -/
structure Access (α σ : Type) (μ : Type → Type) where
  read : σ → α → μ (Option Piece)
  write : σ → α → Option Piece → μ σ

namespace Access

open SquareName

variable {α σ : Type} {μ : Type → Type} [DecidableEq α] [SquareName α] [Monad μ] (a : Access α σ μ) (cells : σ)

/-- The square whose piece the move would take; none if a pawn would have to be taken off the board's edge. -/
def captureSquare? (enPassant : Option α) (mover : Piece) (m : Move α) : μ (Option α) :=
  if mover.kind = .pawn ∧ enPassant = some m.target ∧ file m.origin ≠ file m.target then do
    return if (← a.read cells m.target).isNone then shift? m.target (-mover.color.forward) else some m.target
  else return some m.target

def captured? (enPassant : Option α) (mover : Piece) (m : Move α) : μ (Option (PlacedPiece α)) := do
  match ← a.captureSquare? cells enPassant mover m with
  | some s => return (← a.read cells s).map (⟨·, s⟩)
  | none => return none

/-- The rook's squares if the mover goes as a king does that castles. -/
def rookSquares? (mover : Piece) (origin target : α) : Option (RookMove α) :=
  let back : Nat := mover.color.backRank
  if mover.kind = .king ∧ rank origin = back ∧ rank target = back ∧ file origin = 4 ∧
      ((file origin : Int) - file target).natAbs = 2 then
    let files := if file origin < file target then (7, 5) else (0, 3)
    match ofCoords? back files.1, ofCoords? back files.2 with
    | some origin, some target => some ⟨origin, target⟩
    | _, _ => none
  else none

/-- The rook's move that goes with the king's, given the pieces after the king has moved. -/
def castlingRook? (mover : Piece) (captured : Option (PlacedPiece α)) (m : Move α) : μ (Option (RookMove α)) :=
  match captured, rookSquares? mover m.origin m.target with
  | none, some r => do
    if (← a.read cells r.origin) = some ⟨mover.color, .rook⟩ then
      return if (← a.read cells r.target).isNone then some r else none
    else return none
  | _, _ => return none

/-- Takes any piece taken off its square, and the mover to its target. -/
def moveCells (mover : Piece) (captured : Option (PlacedPiece α)) (m : Move α) : μ σ := do
  let cells ← match captured with
    | some v => a.write cells v.square none
    | none => pure cells
  a.write (← a.write cells m.origin none) m.target (some { mover with kind := m.promotion.getD mover.kind })

/-- The rook's part of castling. -/
def rookCells (mover : Piece) : Option (RookMove α) → μ σ
  | some r => do a.write (← a.write cells r.origin none) r.target (some ⟨mover.color, .rook⟩)
  | none => pure cells

/-- A move that is not refused. -/
def carryOut (mover : Piece) (captured : Option (PlacedPiece α)) (m : Move α) : μ (Moved α σ) := do
  let cells ← a.moveCells cells mover captured m
  let rook ← a.castlingRook? cells mover captured m
  return ⟨← a.rookCells cells mover rook, mover, captured, rook⟩

def play (enPassant : Option α) (m : Move α) : μ (Except (MoveError α) (Moved α σ)) := do
  match ← a.read cells m.origin with
  | none => return .error (.emptyOrigin m.origin)
  | some mover =>
    match ← a.captured? cells enPassant mover m with
    | some ⟨⟨_, .king⟩, s⟩ => return .error (.kingCapture s)
    | captured => return .ok (← a.carryOut cells mover captured m)

/-- The pieces before the move of `u`. A castled rook goes home as whatever stands on its square now. -/
def takeBack (u : Undo α) : μ σ := do
  let cells ← a.write (← a.write cells u.move.target none) u.move.origin (some u.moved)
  let cells ← match u.captured with
    | some v => a.write cells v.square (some v.piece)
    | none => pure cells
  match u.rook with
  | some r => do
    let rook ← a.read cells r.target
    a.write (← a.write cells r.target none) r.origin rook
  | none => return cells

end Access

/-- The pieces at hand. -/
def Placement.access : Access Square Placement Id where
  read cells s := cells.get s
  write cells s o := cells.set s o

/-! ## Boards -/

namespace Board

open SquareName

variable {α : Type} [SquareName α]

/-- A pawn's step of two ranks leaves a target behind it. -/
def enPassantAfter (mover : Piece) (m : Move α) : Option α :=
  if mover.kind = .pawn ∧ ((number m.origin : Int) - number m.target).natAbs = 16 then
    shift? m.origin mover.color.forward
  else none

/-- The pieces that leave and arrive, in the order in which they are recorded. -/
def changeOf (mover : Piece) (captured : Option (PlacedPiece α)) (rook : Option (RookMove α)) (m : Move α) : Change α :=
  let own : Piece := ⟨mover.color, .rook⟩
  { removed := ⟨mover, m.origin⟩ :: captured.toList ++ (rook.map fun r => ⟨own, r.origin⟩).toList
    added := ⟨{ mover with kind := m.promotion.getD mover.kind }, m.target⟩ :: (rook.map fun r => ⟨own, r.target⟩).toList }

/-- The board with everything but the pieces as it is after the move. -/
def pass (b : Board α) (mover : Piece) (captured : Option (PlacedPiece α)) (m : Move α) : Board α :=
  { b with
    sideToMove := b.sideToMove.opponent
    halfmoveClock := if mover.kind = .pawn ∨ captured.isSome then 0 else b.halfmoveClock + 1
    enPassant := enPassantAfter mover m
    castling := (b.castling.touch m.origin).touch m.target
    fullmoveNumber := if mover.color = .black then b.fullmoveNumber + 1 else b.fullmoveNumber }

def undoOf (b : Board α) (mover : Piece) (captured : Option (PlacedPiece α)) (rook : Option (RookMove α)) (m : Move α) :
    Undo α :=
  { move := m, moved := mover, captured, rook, enPassant := b.enPassant, castling := b.castling,
    halfmoveClock := b.halfmoveClock, fullmoveNumber := b.fullmoveNumber }

/-- What playing a move returns once the pieces have moved. -/
def played (b : Board α) (m : Move α) (d : Moved α Placement) : Played α :=
  { board := { b.pass d.mover d.captured m with placement := d.cells }
    change := changeOf d.mover d.captured d.rook m
    undo := b.undoOf d.mover d.captured d.rook m }

/-- The board before the move of `u`, given the pieces. -/
def undone (b : Board α) (u : Undo α) (cells : Placement) : Board α :=
  { placement := cells, sideToMove := b.sideToMove.opponent, halfmoveClock := u.halfmoveClock,
    enPassant := u.enPassant, castling := u.castling, fullmoveNumber := u.fullmoveNumber }

def play (b : Board) (m : Move) : Except MoveError Played :=
  (Id.run (Placement.access.play b.placement b.enPassant m)).map (b.played m)

/-- The board before the move of `u`. -/
def takeBack (b : Board) (u : Undo) : Board := b.undone u (Id.run (Placement.access.takeBack b.placement u))

end Board

end ChessEval
