/-
  ChessEval.Proofs.Board.Flip — playing a move takes no side.

  Flipping a board gives each piece to the other side, turns the board around, exchanges
  the castling rights and gives the other side the move; flipping a move turns its
  squares around. Whatever a move decides by colour (the pawn's way, the back rank, the
  corners of the rooks) is the mirror image of what it is for the other side. The number of
  the move is not: it goes on with Black's moves, so flipped boards may differ in it.

  - `shift?_flip`: a pawn's step flipped is the other side's step, also at the board's edge.
  - `captured?_flip`, `castlingRook?_flip`: a flipped move takes and castles alike.
  - `carryOut_flip`: so it is carried out alike, on whatever number.
  - `play_flip`: so a flipped move is refused for the same reason or has the flipped outcome.
  - `along_flip`: hence whole lines of moves have flipped outcomes.
-/

import ChessEval.Proofs.Board.TakeBack
import Mathlib.Data.List.Forall2

namespace ChessEval

/-! ## Squares -/

namespace Square

@[simp] theorem rank_flip (s : Square) : s.flip.rank = s.rank.rev := rank_ofCoords _ _

@[simp] theorem file_flip (s : Square) : s.flip.file = s.file := file_ofCoords _ _

theorem flip_inj {s t : Square} : s.flip = t.flip ↔ s = t := by
  constructor
  · intro h
    rw [← flip_flip s, h, flip_flip]
  · rintro rfl
    rfl

theorem flip_eq_iff {s t : Square} : s.flip = t ↔ s = t.flip := by
  rw [← flip_inj, flip_flip]

theorem index_flip (s : Square) : (s.flip.index : Int) = 56 - 8 * (s.index / 8 : Nat) + (s.index % 8 : Nat) := by
  have hs := s.index.isLt
  simp only [flip, ofCoords, rank, file, Fin.val_rev]
  omega

/-- A step of one rank is flipped into the other side's step, and leaves the board where that does. -/
theorem shift?_flip (s : Square) (c : Color) :
    s.flip.shift? c.opponent.forward = (s.shift? c.forward).map flip := by
  obtain ⟨i⟩ := s
  revert i
  cases c <;> decide

end Square

namespace Color

theorem forward_opponent (c : Color) : c.opponent.forward = -c.forward := by cases c <;> rfl

theorem backRank_opponent (c : Color) : c.opponent.backRank = c.backRank.rev := by cases c <;> rfl

theorem kingHome_opponent (c : Color) : c.opponent.kingHome = c.kingHome.flip := by cases c <;> rfl

theorem rookHome_opponent (c : Color) (w : Wing) : c.opponent.rookHome w = (c.rookHome w).flip := by
  cases c <;> cases w <;> rfl

theorem rookCastled_opponent (c : Color) (w : Wing) : c.opponent.rookCastled w = (c.rookCastled w).flip := by
  cases c <;> cases w <;> rfl

end Color

/-! ## Pieces and rights -/

@[simp] theorem Piece.recolored_kind (p : Piece) : p.recolored.kind = p.kind := rfl

@[simp] theorem Piece.recolored_color (p : Piece) : p.recolored.color = p.color.opponent := rfl

@[simp] theorem Piece.recolored_recolored (p : Piece) : p.recolored.recolored = p := by simp [recolored]

theorem Piece.recolored_inj {p q : Piece} : p.recolored = q.recolored ↔ p = q := by
  constructor
  · intro h
    rw [← p.recolored_recolored, h, q.recolored_recolored]
  · rintro rfl
    rfl

namespace Placement

theorem get_flip (p : Placement) (s : Square) : p.flip.get s.flip = (p.get s).map Piece.recolored := by
  simp [flip]

theorem get_flip_eq_none {p : Placement} {s : Square} : p.flip.get s.flip = none ↔ p.get s = none := by
  rw [get_flip, Option.map_eq_none_iff]

theorem get_flip_eq_some {p : Placement} {s : Square} {q : Piece} :
    p.flip.get s.flip = some q.recolored ↔ p.get s = some q := by
  rw [get_flip]
  cases p.get s with
  | none => simp
  | some q' => simp [Piece.recolored_inj]

theorem set_flip (p : Placement) (s : Square) (o : Option Piece) :
    (p.set s o).flip = p.flip.set s.flip (o.map Piece.recolored) := by
  ext1 t
  simp only [flip, get_ofFn, get_set, Square.flip_eq_iff]
  split
  · rfl
  · rfl

end Placement

theorem CastlingRights.touch_flip (r : CastlingRights) (s : Square) : (r.touch s).flip = r.flip.touch s.flip := by
  have hmoved : ∀ t : Square, decide (s ≠ t) = decide (s.flip ≠ t.flip) := fun t =>
    decide_eq_decide.mpr (not_congr Square.flip_inj.symm)
  ext c w
  simp only [touch_eq, flip, has_ofFn, hmoved, ← Color.kingHome_opponent, ← Color.rookHome_opponent,
    Color.opponent_opponent]

/-! ## The parts of a move -/

/-- The rook's part with both squares flipped. -/
def RookMove.flip (r : RookMove) : RookMove := ⟨r.origin.flip, r.target.flip⟩

namespace Board

/-- The board with another number of the move. -/
def numbered (b : Board) (n : UInt32) : Board := { b with fullmoveNumber := n }

variable (b : Board) (mover : Piece) (m : Move) (n : UInt32)

theorem pieceOn_flip (s : Square) : (b.flip.numbered n).pieceOn s.flip = (b.pieceOn s).map Piece.recolored :=
  b.placement.get_flip s

theorem captureSquare?_flip :
    (b.flip.numbered n).captureSquare? mover.recolored m.flip = (b.captureSquare? mover m).map Square.flip := by
  have hpassant : (b.flip.numbered n).enPassant = some m.flip.target ↔ b.enPassant = some m.target := by
    show b.enPassant.map Square.flip = some m.target.flip ↔ _
    cases b.enPassant with
    | none => simp
    | some s => simp [Square.flip_inj]
  have hempty : (b.flip.numbered n).pieceOn m.flip.target = none ↔ b.pieceOn m.target = none :=
    Placement.get_flip_eq_none
  have hfile : m.flip.origin.file ≠ m.flip.target.file ↔ m.origin.file ≠ m.target.file := by simp [Move.flip]
  have hstep : m.flip.target.shift? (-mover.recolored.color.forward) =
      (m.target.shift? (-mover.color.forward)).map Square.flip := by
    rw [← Color.forward_opponent, ← Color.forward_opponent]
    exact m.target.shift?_flip mover.color.opponent
  simp only [captureSquare?_eq, hpassant, hempty, hfile, hstep, Piece.recolored_kind, apply_ite (Option.map Square.flip)]
  rfl

theorem captured?_flip :
    (b.flip.numbered n).captured? mover.recolored m.flip = (b.captured? mover m).map PlacedPiece.flip := by
  rw [captured?_eq, captureSquare?_flip, captured?_eq]
  cases b.captureSquare? mover m with
  | none => rfl
  | some s =>
    simp only [Option.map_some, Option.bind_some, pieceOn_flip, Option.map_map]
    rfl

theorem castlingWing?_flip : castlingWing? mover.recolored m.flip = castlingWing? mover m := by
  have horigin : m.flip.origin = mover.recolored.color.kingHome ↔ m.origin = mover.color.kingHome := by
    show m.origin.flip = mover.color.opponent.kingHome ↔ _
    rw [Color.kingHome_opponent, Square.flip_inj]
  have hrank : m.flip.target.rank = mover.recolored.color.backRank ↔ m.target.rank = mover.color.backRank := by
    show m.target.flip.rank = mover.color.opponent.backRank ↔ _
    rw [Square.rank_flip, Color.backRank_opponent, Fin.rev_inj]
  have hfile : m.flip.target.file = m.target.file := m.target.file_flip
  simp only [castlingWing?, horigin, hrank, hfile]
  rfl

theorem rookMove_flip (c : Color) (w : Wing) : rookMove c.opponent w = (rookMove c w).flip := by
  simp only [rookMove, RookMove.flip, Color.rookHome_opponent, Color.rookCastled_opponent]

theorem castlingRook?_flip (cells : Placement) (captured : Option PlacedPiece) :
    castlingRook? cells.flip mover.recolored (captured.map PlacedPiece.flip) m.flip =
      (castlingRook? cells mover captured m).map RookMove.flip := by
  rw [castlingRook?_eq, castlingWing?_flip, castlingRook?_eq]
  cases castlingWing? mover m with
  | none => rfl
  | some w =>
    have hrook : cells.flip.get (rookMove mover.color w).origin.flip = some ⟨mover.color.opponent, .rook⟩ ↔
        cells.get (rookMove mover.color w).origin = some ⟨mover.color, .rook⟩ :=
      Placement.get_flip_eq_some (q := ⟨mover.color, .rook⟩)
    have hfree : cells.flip.get (rookMove mover.color w).target.flip = none ↔
        cells.get (rookMove mover.color w).target = none := Placement.get_flip_eq_none
    simp only [Option.bind_some, Piece.recolored_color, rookMove_flip, Option.map_eq_none_iff,
      apply_ite (Option.map RookMove.flip)]
    simp only [RookMove.flip, hrook, hfree]
    rfl

theorem moveCells_flip (cells : Placement) (captured : Option PlacedPiece) :
    moveCells cells.flip mover.recolored (captured.map PlacedPiece.flip) m.flip =
      (moveCells cells mover captured m).flip := by
  cases captured with
  | none =>
    simp only [moveCells_eq, Option.map_none, Placement.set_flip]
    rfl
  | some v =>
    simp only [moveCells_eq, Option.map_some, Placement.set_flip]
    rfl

theorem rookCells_flip (cells : Placement) (r : Option RookMove) :
    rookCells cells.flip mover.recolored (r.map RookMove.flip) = (rookCells cells mover r).flip := by
  cases r with
  | none => rfl
  | some r =>
    simp only [rookCells_some, Option.map_some, Placement.set_flip]
    rfl

theorem enPassantAfter_flip : enPassantAfter mover.recolored m.flip = (enPassantAfter mover m).map Square.flip := by
  have hdouble : ((m.flip.origin.index : Int) - m.flip.target.index).natAbs = 16 ↔
      ((m.origin.index : Int) - m.target.index).natAbs = 16 := by
    simp only [Move.flip, Square.index_flip]
    omega
  have hstep : m.flip.origin.shift? mover.recolored.color.forward =
      (m.origin.shift? mover.color.forward).map Square.flip := m.origin.shift?_flip mover.color
  simp only [enPassantAfter_eq, hdouble, hstep, Piece.recolored_kind, apply_ite (Option.map Square.flip)]
  rfl

theorem changeOf_flip (captured : Option PlacedPiece) (r : Option RookMove) :
    changeOf mover.recolored (captured.map PlacedPiece.flip) (r.map RookMove.flip) m.flip =
      (changeOf mover captured r m).flip := by
  cases captured <;> cases r <;> rfl

end Board

/-! ## The whole move -/

/-- The same reason, on the flipped square. -/
def MoveError.flip : MoveError → MoveError
  | emptyOrigin s => emptyOrigin s.flip
  | kingCapture s => kingCapture s.flip

/-- The undo as the other side would see its own, with `n` for the number of the move. -/
def Undo.flip (u : Undo) (n : UInt32) : Undo :=
  { move := u.move.flip, moved := u.moved.recolored, captured := u.captured.map PlacedPiece.flip,
    rook := u.rook.map RookMove.flip, enPassant := u.enPassant.map Square.flip, castling := u.castling.flip,
    halfmoveClock := u.halfmoveClock, fullmoveNumber := n }

/-- The outcome as the other side would see its own, on a board with number `n`: the number
    goes on with the move that was White's and is Black's now. -/
def Played.flip (p : Played) (n : UInt32) : Played :=
  { board := p.board.flip.numbered (if p.undo.moved.color = .white then n + 1 else n)
    change := p.change.flip
    undo := p.undo.flip n }

namespace Board

variable (b : Board) (m : Move) (n : UInt32)

theorem pass_flip (mover : Piece) (captured : Option PlacedPiece) :
    (b.flip.numbered n).pass mover.recolored (captured.map PlacedPiece.flip) m.flip =
      (b.pass mover captured m).flip.numbered (if mover.color = .white then n + 1 else n) := by
  have hnumber : (mover.recolored.color = .black) ↔ (mover.color = .white) := by
    show mover.color.opponent = .black ↔ _
    cases mover.color <;> decide
  have hcastling : ((b.castling.touch m.origin).touch m.target).flip =
      (b.castling.flip.touch m.origin.flip).touch m.target.flip := by
    rw [CastlingRights.touch_flip, CastlingRights.touch_flip]
  simp only [numbered, flip, Position.flip, pass, enPassantAfter_flip, hnumber, hcastling, Option.isSome_map]
  rfl

theorem carryOut_flip (mover : Piece) (captured : Option PlacedPiece) :
    (b.flip.numbered n).carryOut mover.recolored (captured.map PlacedPiece.flip) m.flip =
      (b.carryOut mover captured m).flip n := by
  have hcells : moveCells (b.flip.numbered n).placement mover.recolored (captured.map PlacedPiece.flip) m.flip =
      (moveCells b.placement mover captured m).flip := moveCells_flip mover m b.placement captured
  simp only [carryOut_eq, hcells, castlingRook?_flip, rookCells_flip, changeOf_flip, pass_flip]
  rfl

theorem play_flip : (b.flip.numbered n).play m.flip = ((b.play m).map (·.flip n)).mapError MoveError.flip := by
  have horigin : (b.flip.numbered n).pieceOn m.flip.origin = (b.pieceOn m.origin).map Piece.recolored :=
    pieceOn_flip b n m.origin
  rw [play_eq, play_eq, horigin]
  cases b.pieceOn m.origin with
  | none => rfl
  | some mover =>
    simp only [Option.map_some, captured?_flip]
    cases hc : b.captured? mover m with
    | none => exact congrArg Except.ok (b.carryOut_flip m n mover none)
    | some v =>
      obtain ⟨⟨c, k⟩, s⟩ := v
      cases k with
      | king => rfl
      | _ => exact congrArg Except.ok (b.carryOut_flip m n mover (some ⟨⟨c, _⟩, s⟩))

/-- The moves of a flipped line that are accepted are the flipped ones, each with the flipped outcome. -/
theorem along_flip (ms : List Move) :
    List.Forall₂ (fun p p' => ∃ k, p' = p.flip k) (b.along ms) ((b.flip.numbered n).along (ms.map Move.flip)) := by
  induction ms generalizing b n with
  | nil => exact .nil
  | cons m ms ih =>
    simp only [List.map_cons, along, play_flip]
    cases b.play m with
    | error e => exact ih b n
    | ok p => exact .cons ⟨n, rfl⟩ (ih p.board _)

/-- A flipped move on a flipped board, whatever its number, is refused for the same reason on the
    flipped square, or has the flipped outcome: the pieces that leave and arrive are the flipped
    ones in the same order, and the board is the flipped one in every field but the number.
    So it is at every move of a line. -/
theorem moves_take_no_side :
    (b.flip.numbered n).play m.flip = ((b.play m).map (·.flip n)).mapError MoveError.flip ∧
      ∀ ms, List.Forall₂ (fun p p' => ∃ k, p' = p.flip k) (b.along ms) ((b.flip.numbered n).along (ms.map Move.flip)) :=
  ⟨play_flip b m n, along_flip b n⟩

end Board

end ChessEval
