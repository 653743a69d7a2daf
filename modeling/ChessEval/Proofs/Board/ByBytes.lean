/-
  ChessEval.Proofs.Board.ByBytes — boards whose squares are bytes.

  A host names the squares of a board by bytes (`StoredSquare`), and a board looks its pieces up in
  an array of 64. Nothing is checked on the way: a byte from 64 on is a fault (`StoredSquare.locate`).
  Boards, moves and changes are those of the library with bytes for squares, and a move is played and
  taken back by the same program (`Access`), through `access`. The other calls on boards are
  written with bytes and with every such access in them.
  - `ofFen_eq`: reading a board makes the squares it writes to, and never writes elsewhere.
  - `pieceOn_ofBoard`, `put_ofBoard`, `take_ofBoard`, `occupied_ofBoard`, `play_ofBoard`,
    `takeBack_ofBoard`: as long as the bytes are squares, each call answers, and as the board does.
  - `cell_of_not_onBoard`, `captured?_of_not_onBoard`: any other byte is a fault.
-/

import ChessEval.Board.Fen
import ChessEval.Board.Play
import ChessEval.Proofs.Board.MoveText
import ChessEval.Proofs.Except

namespace ChessEval

namespace Stored

/-! ## Values with bytes -/

abbrev StoredPlaced := PlacedPiece StoredSquare

abbrev StoredRookMove := RookMove StoredSquare

abbrev StoredBoard := Board StoredSquare

abbrev StoredUndo := Undo StoredSquare

abbrev StoredPlayed := Played StoredSquare

abbrev StoredMoveError := MoveError StoredSquare

def StoredPlaced.ofPlaced (p : PlacedPiece) : StoredPlaced := ⟨p.piece, .ofSquare p.square⟩

def StoredRookMove.ofRookMove (r : RookMove) : StoredRookMove := ⟨.ofSquare r.origin, .ofSquare r.target⟩

def StoredBoard.ofBoard (b : Board) : StoredBoard :=
  { toPosition := b.toPosition, enPassant := b.enPassant.map .ofSquare, castling := b.castling,
    fullmoveNumber := b.fullmoveNumber }

def StoredUndo.ofUndo (u : Undo) : StoredUndo :=
  { move := StoredMove.ofMove u.move, moved := u.moved, captured := u.captured.map StoredPlaced.ofPlaced,
    rook := u.rook.map StoredRookMove.ofRookMove, enPassant := u.enPassant.map .ofSquare, castling := u.castling,
    halfmoveClock := u.halfmoveClock, fullmoveNumber := u.fullmoveNumber }

def StoredPlayed.ofPlayed (p : Played) : StoredPlayed :=
  { board := StoredBoard.ofBoard p.board
    change := ⟨p.change.removed.map StoredPlaced.ofPlaced, p.change.added.map StoredPlaced.ofPlaced⟩
    undo := StoredUndo.ofUndo p.undo }

def StoredMoveError.ofError : MoveError → StoredMoveError
  | .emptyOrigin s => .emptyOrigin (.ofSquare s)
  | .kingCapture s => .kingCapture (.ofSquare s)

/-! ## Cells -/

def cell (cells : Placement) (x : StoredSquare) : Except Fault (Option Piece) := do return cells.get (← x.locate)

def write (cells : Placement) (x : StoredSquare) (o : Option Piece) : Except Fault Placement := do
  return cells.set (← x.locate) o

/-- The piece that stands there, with its square. -/
def standing (cells : Placement) (x : StoredSquare) : Except Fault (Option StoredPlaced) := do
  return (← cell cells x).map (⟨·, x⟩)

@[simp] theorem cell_ofSquare (cells : Placement) (s : Square) : cell cells (.ofSquare s) = .ok (cells.get s) := by
  rw [cell, StoredSquare.locate_ofSquare]
  rfl

@[simp] theorem write_ofSquare (cells : Placement) (s : Square) (o : Option Piece) :
    write cells (.ofSquare s) o = .ok (cells.set s o) := by
  rw [write, StoredSquare.locate_ofSquare]
  rfl

@[simp] theorem standing_ofSquare (cells : Placement) (s : Square) :
    standing cells (.ofSquare s) = .ok (((cells.get s).map (⟨·, s⟩)).map .ofPlaced) := by
  rw [standing, cell_ofSquare, Option.map_map]
  rfl

theorem cell_of_not_onBoard {x : StoredSquare} (h : ¬ x.OnBoard) (cells : Placement) :
    cell cells x = .error (.noSuchRow x.number.toNat 64) := by
  rw [cell, StoredSquare.locate_of_not_onBoard h]
  rfl

/-! ## Reading a board -/

namespace StoredBoard

/-- Reads one row. The width is a byte that stops at 255. -/
def readRow (row : Fin 8) (cells : Placement) (file : UInt8) : List Char → Except Fault (Except FenError Placement)
  | [] => .ok (if 8 < file then .error (.tooManyFiles row file.toNat) else .ok cells)
  | c :: cs =>
    if c.isDigit then readRow row cells (.ofNat (min 255 (file.toNat + (c.toNat - 48)))) cs
    else match Piece.ofLetter? c with
      | none => .ok (.error (.badPiece c))
      | some p =>
        match StoredSquare.ofCoords? (7 - .ofNat row) file with
        | none => .ok (.error (.tooManyFiles row (file.toNat + 1)))
        | some x => do readRow row (← write cells x (some p)) (file + 1) cs

def readRows (row : Nat) (cells : Placement) : List (List Char) → Except Fault (Except FenError Placement)
  | [] => .ok (.ok cells)
  | cs :: rows =>
    if h : row < 8 then do
      match ← readRow ⟨row, h⟩ cells 0 cs with
      | .ok cells => readRows (row + 1) cells rows
      | .error e => return .error e
    else .ok (.error (.tooManyRows row))

def readEnPassant : List Char → Except FenError (Option StoredSquare)
  | ['-'] => .ok none
  | field =>
    match StoredSquare.ofLetters? field with
    | some x => .ok (some x)
    | none => .error (.badEnPassant (String.ofList field))

def readFields : List (List Char) → Except Fault (Except FenError StoredBoard)
  | placement :: side :: rest => do
    let cells ← readRows 0 .empty (placement.splitOnP (· == '/'))
    return do
      let placement ← cells
      let sideToMove ← Fen.readSide side
      let castling ← Fen.readCastling .none (rest[0]?.getD ['-'])
      let enPassant ← readEnPassant (rest[1]?.getD ['-'])
      let halfmoveClock ← Fen.readClock rest[2]?
      return { placement, sideToMove, castling, enPassant, halfmoveClock, fullmoveNumber := Fen.readNumber rest[3]? }
  | few => .ok (.error (.tooFewFields few.length))

def ofFen (fen : String) : Except Fault (Except FenError StoredBoard) := readFields (Text.fields fen.toList)

theorem toNat_sub_row (row : Fin 8) : ((7 : UInt8) - .ofNat row).toNat = row.rev := by
  revert row
  decide

theorem readRow_eq (row : Fin 8) (cells : Placement) (file : UInt8) (cs : List Char) :
    readRow row cells file cs = .ok (Fen.readRow row cells file.toNat cs) := by
  induction cs generalizing cells file with
  | nil =>
    have hwide : 8 < file ↔ 8 < file.toNat := UInt8.lt_iff_toNat_lt
    simp only [readRow, Fen.readRow, hwide]
  | cons c cs ih =>
    unfold readRow Fen.readRow
    by_cases hdigit : c.isDigit
    · have hwidth : min 255 (file.toNat + (c.toNat - 48)) < UInt8.size := Nat.lt_succ_of_le (Nat.min_le_left _ _)
      rw [if_pos hdigit, if_pos hdigit, ih, UInt8.toNat_ofNat_of_lt' hwidth]
    · rw [if_neg hdigit, if_neg hdigit]
      cases Piece.ofLetter? c with
      | none => rfl
      | some p =>
        simp only [StoredSquare.ofCoords?_eq, toNat_sub_row]
        cases hs : Square.ofCoords? row.rev file.toNat with
        | none => rfl
        | some s =>
          -- a file with a square on it leaves room for one more
          have hfile : file.toNat < 8 := by
            unfold Square.ofCoords? at hs
            split at hs
            · rename_i h
              exact h.2
            · cases hs
          have hnext : (file + 1).toNat = file.toNat + 1 := by
            have hroom : file.toNat + 1 < 256 := by omega
            exact (UInt8.toNat_add _ _).trans (Nat.mod_eq_of_lt hroom)
          simp only [Option.map_some, write_ofSquare]
          exact (ih _ _).trans (by rw [hnext])

theorem readRows_eq (row : Nat) (cells : Placement) (rows : List (List Char)) :
    readRows row cells rows = .ok (Fen.readRows row cells rows) := by
  induction rows generalizing row cells with
  | nil => rfl
  | cons cs rows ih =>
    unfold readRows Fen.readRows
    split
    case isTrue h =>
      rw [readRow_eq]
      change (match Fen.readRow ⟨row, h⟩ cells 0 cs with
        | .ok cells => readRows (row + 1) cells rows
        | .error e => pure (.error e)) = _
      cases Fen.readRow ⟨row, h⟩ cells 0 cs with
      | ok cells => exact ih _ cells
      | error e => rfl
    case isFalse => rfl

theorem readEnPassant_eq (field : List Char) :
    readEnPassant field = (Fen.readEnPassant field).map (Option.map .ofSquare) := by
  fun_cases Fen.readEnPassant field with
  | case1 => rfl
  | case2 field h s hs =>
    simp only [readEnPassant, StoredSquare.ofLetters?_eq, hs]
    rfl
  | case3 field h hs =>
    simp only [readEnPassant, StoredSquare.ofLetters?_eq, hs]
    rfl

theorem readFields_eq (fields : List (List Char)) : readFields fields = .ok ((Fen.readFields fields).map ofBoard) := by
  rcases fields with _ | ⟨placement, _ | ⟨side, rest⟩⟩
  · rfl
  · rfl
  · simp only [readFields, Fen.readFields, Fen.readPlacement, readRows_eq, readEnPassant_eq]
    cases Fen.readRows 0 .empty (placement.splitOnP (· == '/')) with
    | error e => rfl
    | ok cells =>
      cases Fen.readSide side with
      | error e => rfl
      | ok sideToMove =>
        cases Fen.readCastling .none (rest[0]?.getD ['-']) with
        | error e => rfl
        | ok castling =>
          cases Fen.readEnPassant (rest[1]?.getD ['-']) with
          | error e => rfl
          | ok enPassant => cases Fen.readClock rest[2]? <;> rfl

/-- Every text has an answer. -/
theorem ofFen_eq (fen : String) : ofFen fen = .ok ((Board.ofFen fen).map ofBoard) := readFields_eq _

/-! ## Access to a board -/

def pieceOn (b : StoredBoard) (x : StoredSquare) : Except Fault (Option Piece) := cell b.placement x

def put (b : StoredBoard) (x : StoredSquare) (p : Piece) : Except Fault StoredBoard := do
  return { b with placement := ← write b.placement x (some p) }

def take (b : StoredBoard) (x : StoredSquare) : Except Fault (StoredBoard × Option Piece) := do
  let taken ← cell b.placement x
  return ({ b with placement := ← write b.placement x none }, taken)

/-- The pieces with their squares, in the order of the squares. -/
def occupied (b : StoredBoard) : Except Fault (List StoredPlaced) := do
  return (← StoredSquare.all.mapM (standing b.placement)).filterMap id

theorem pieceOn_ofBoard (b : Board) (s : Square) : (ofBoard b).pieceOn (.ofSquare s) = .ok (b.pieceOn s) :=
  cell_ofSquare _ _

theorem put_ofBoard (b : Board) (s : Square) (p : Piece) :
    (ofBoard b).put (.ofSquare s) p = .ok (ofBoard (b.put s p)) := by
  rw [put, write_ofSquare]
  rfl

theorem take_ofBoard (b : Board) (s : Square) :
    (ofBoard b).take (.ofSquare s) = .ok (ofBoard (b.take s).1, (b.take s).2) := by
  rw [take, cell_ofSquare, write_ofSquare]
  rfl

theorem occupied_ofBoard (b : Board) : (ofBoard b).occupied = .ok (b.occupied.map .ofPlaced) := by
  have hstanding : standing b.placement ∘ StoredSquare.ofSquare =
      fun s => pure (((b.pieceOn s).map (⟨·, s⟩)).map .ofPlaced) := funext (standing_ofSquare b.placement)
  have hall : StoredSquare.all.mapM (standing b.placement) =
      (.ok (Square.all.map fun s => ((b.pieceOn s).map (⟨·, s⟩)).map .ofPlaced) : Except Fault _) := by
    rw [StoredSquare.all_eq, List.mapM_map, hstanding]
    exact List.mapM_pure
  rw [occupied, show (ofBoard b).placement = b.placement from rfl, hall]
  refine congrArg Except.ok ?_
  rw [List.filterMap_map, Position.occupied, Placement.occupied, List.map_filterMap]
  rfl

end StoredBoard

/-! ## Playing a move -/

open StoredMove (ofMove)
open StoredPlaced (ofPlaced)
open StoredRookMove (ofRookMove)
open StoredMoveError (ofError)

/-- The pieces, reached by bytes. -/
def access : Access StoredSquare Placement (Except Fault) := ⟨cell, write⟩

/-- What is done to the pieces, with bytes for squares. -/
def ofMoved (d : Moved Square Placement) : Moved StoredSquare Placement :=
  ⟨d.cells, d.mover, d.captured.map ofPlaced, d.rook.map ofRookMove⟩

section

variable (b : Board) (cells : Placement) (mover : Piece) (captured : Option PlacedPiece) (m : Move)

theorem access_read (s : Square) : access.read cells (.ofSquare s) = .ok (cells.get s) := cell_ofSquare cells s

theorem access_write (s : Square) (o : Option Piece) : access.write cells (.ofSquare s) o = .ok (cells.set s o) :=
  write_ofSquare cells s o

theorem squareName_number (s : Square) : SquareName.number (StoredSquare.ofSquare s) = s.index :=
  StoredSquare.number_ofSquare s

theorem shift?_ofSquare_step (s : Square) {d : Int} (hd : (Int8.ofInt d).toInt = d) :
    SquareName.shift? (StoredSquare.ofSquare s) d = (s.shift? d).map .ofSquare := by
  have hshift := StoredSquare.shift?_ofSquare s (.ofInt d)
  rwa [hd] at hshift

theorem captureSquare?_ofMove :
    access.captureSquare? b.placement (b.enPassant.map .ofSquare) mover (ofMove m) =
      .ok ((b.captureSquare? mover m).map .ofSquare) := by
  have hfile : SquareName.file (ofMove m).origin ≠ SquareName.file (ofMove m).target ↔ m.origin.file ≠ m.target.file :=
    not_congr (UInt8.toNat_inj.trans StoredSquare.file_ofSquare_inj)
  have hpassant : b.enPassant.map StoredSquare.ofSquare = some (ofMove m).target ↔ b.enPassant = some m.target :=
    StoredSquare.map_ofSquare_eq_some
  have hread : access.read b.placement (ofMove m).target = .ok (b.pieceOn m.target) := access_read _ _
  have hshift : SquareName.shift? (ofMove m).target (-mover.color.forward) =
      (m.target.shift? (-mover.color.forward)).map .ofSquare :=
    shift?_ofSquare_step _ (by cases mover.color <;> decide)
  simp only [Access.captureSquare?, hfile, hpassant, hread, hshift, ok_bind, Board.captureSquare?_eq]
  cases b.pieceOn m.target with
  | none =>
    simp only [Option.isNone_none, if_true, and_true]
    split <;> rfl
  | some p =>
    simp only [Option.isNone_some, Bool.false_eq_true, reduceCtorEq, if_false, and_false]
    split <;> rfl

theorem captured?_ofMove :
    access.captured? b.placement (b.enPassant.map .ofSquare) mover (ofMove m) =
      .ok ((b.captured? mover m).map ofPlaced) := by
  rw [Access.captured?, captureSquare?_ofMove, Board.captured?_eq, ok_bind]
  cases b.captureSquare? mover m with
  | none => rfl
  | some s =>
    simp only [Option.map_some, access_read, ok_bind, Option.bind_some, Option.map_map]
    rfl

theorem rookSquares?_ofSquare (origin target : Square) :
    Access.rookSquares? mover (StoredSquare.ofSquare origin) (StoredSquare.ofSquare target) =
      (Access.rookSquares? mover origin target).map ofRookMove := by
  have hrank (s : Square) : SquareName.rank (StoredSquare.ofSquare s) = SquareName.rank s := StoredSquare.rank_ofSquare s
  have hfile (s : Square) : SquareName.file (StoredSquare.ofSquare s) = SquareName.file s := StoredSquare.file_ofSquare s
  obtain ⟨c, k⟩ := mover
  simp only [Access.rookSquares?, hrank, hfile]
  split
  case isTrue =>
    by_cases hwing : SquareName.file origin < SquareName.file target
    · simp only [if_pos hwing]
      cases c <;> rfl
    · simp only [if_neg hwing]
      cases c <;> rfl
  case isFalse => rfl

theorem castlingRook?_ofMove :
    access.castlingRook? cells mover (captured.map ofPlaced) (ofMove m) =
      .ok ((Board.castlingRook? cells mover captured m).map ofRookMove) := by
  have hsquares : Access.rookSquares? mover (ofMove m).origin (ofMove m).target = _ :=
    rookSquares?_ofSquare mover m.origin m.target
  unfold Access.castlingRook? Board.castlingRook? Access.castlingRook?
  rw [hsquares]
  cases captured with
  | some v => rfl
  | none =>
    cases Access.rookSquares? mover m.origin m.target with
    | none => rfl
    | some r =>
      have hread (s : Square) : Placement.access.read cells s = pure (cells.get s) := rfl
      simp only [Option.map_none, Option.map_some, ofRookMove, access_read, hread, ok_bind, pure_bind]
      cases cells.get r.target <;> split <;> rfl

theorem moveCells_ofMove :
    access.moveCells cells mover (captured.map ofPlaced) (ofMove m) = .ok (Board.moveCells cells mover captured m) := by
  cases captured <;>
    simp only [Access.moveCells, Option.map_none, Option.map_some, ofMove, ofPlaced, access_write, ok_bind, pure_eq_ok,
      Board.moveCells_eq]

theorem rookCells_ofRookMove (rook : Option RookMove) :
    access.rookCells cells mover (rook.map ofRookMove) = .ok (Board.rookCells cells mover rook) := by
  cases rook with
  | none => rfl
  | some r => simp only [Access.rookCells, Option.map_some, ofRookMove, access_write, ok_bind, Board.rookCells_some]

theorem carryOut_ofMove :
    access.carryOut cells mover (captured.map ofPlaced) (ofMove m) =
      .ok (ofMoved (Id.run (Placement.access.carryOut cells mover captured m))) := by
  rw [Access.carryOut, moveCells_ofMove, ok_bind, castlingRook?_ofMove, ok_bind, rookCells_ofRookMove]
  rfl

/-- Reached by the bytes of squares, the pieces are moved as they are at hand. -/
theorem access_play_ofMove :
    access.play b.placement (b.enPassant.map .ofSquare) (ofMove m) =
      .ok (((Id.run (Placement.access.play b.placement b.enPassant m)).map ofMoved).mapError ofError) := by
  have hread : access.read b.placement (ofMove m).origin = .ok (b.pieceOn m.origin) := access_read _ _
  rw [Access.play, Access.play, hread, ok_bind, Board.access_read, pure_bind]
  cases b.pieceOn m.origin with
  | none => rfl
  | some mover =>
    simp only [captured?_ofMove, ok_bind, Board.access_captured?, pure_bind]
    cases b.captured? mover m with
    | none =>
      have hcarry := carryOut_ofMove b.placement mover none m
      rw [Option.map_none] at hcarry ⊢
      simp only [hcarry, ok_bind]
      rfl
    | some v =>
      have hcarry := carryOut_ofMove b.placement mover (some v) m
      rw [Option.map_some] at hcarry ⊢
      obtain ⟨⟨c, k⟩, s⟩ := v
      cases k with
      | king => rfl
      | _ =>
        simp only [ofPlaced] at hcarry ⊢
        simp only [hcarry, ok_bind]
        rfl

theorem enPassantAfter_ofMove :
    Board.enPassantAfter mover (ofMove m) = (Board.enPassantAfter mover m).map .ofSquare := by
  have hshift := shift?_ofSquare_step m.origin (show (Int8.ofInt mover.color.forward).toInt = _ by cases mover.color <;> decide)
  rw [Board.enPassantAfter_eq]
  simp only [Board.enPassantAfter, ofMove, squareName_number, hshift]
  split <;> rfl

theorem touch_ofSquare (r : CastlingRights) (s : Square) : r.touch (StoredSquare.ofSquare s) = r.touch s := by
  have hnumber : SquareName.number (StoredSquare.ofSquare s) = SquareName.number s := squareName_number s
  simp only [CastlingRights.touch, hnumber]

end

namespace StoredBoard

def play (b : StoredBoard) (m : StoredMove) : Except Fault (Except StoredMoveError StoredPlayed) := do
  return (← access.play b.placement b.enPassant m).map (b.played m)

def takeBack (b : StoredBoard) (u : StoredUndo) : Except Fault StoredBoard := do
  return b.undone u (← access.takeBack b.placement u)

variable (b : Board) (m : Move)

theorem played_ofBoard (d : Moved Square Placement) :
    (ofBoard b).played (ofMove m) (ofMoved d) = StoredPlayed.ofPlayed (b.played m d) := by
  have htouch : ((ofBoard b).castling.touch (ofMove m).origin).touch (ofMove m).target =
      (b.castling.touch m.origin).touch m.target :=
    (touch_ofSquare _ _).trans (congrArg (CastlingRights.touch · m.target) (touch_ofSquare _ _))
  obtain ⟨cells, mover, captured, rook⟩ := d
  simp only [Board.played, Board.pass, ofMoved, enPassantAfter_ofMove, htouch, Option.isSome_map]
  cases captured <;> cases rook <;> rfl

/-- A move of squares is played as the board plays it, without a fault. -/
theorem play_ofBoard : (ofBoard b).play (ofMove m) = .ok (((b.play m).map .ofPlayed).mapError .ofError) := by
  have hplay : access.play (ofBoard b).placement (ofBoard b).enPassant (ofMove m) = _ := access_play_ofMove b m
  rw [play, hplay, ok_bind, Board.play]
  cases Id.run (Placement.access.play b.placement b.enPassant m) with
  | error e => rfl
  | ok d => exact congrArg (fun p => Except.ok (Except.ok p)) (played_ofBoard b m d)

theorem takeBack_ofBoard (u : Undo) : (ofBoard b).takeBack (.ofUndo u) = .ok (ofBoard (b.takeBack u)) := by
  obtain ⟨m, moved, captured, rook, enPassant, castling, clock, number⟩ := u
  cases captured <;> cases rook <;>
    simp only [takeBack, Access.takeBack, StoredUndo.ofUndo, ofMove, ofPlaced, ofRookMove, Option.map_none, Option.map_some,
      access_read, access_write, ok_bind, pure_eq_ok] <;>
    rfl

/-- A target past the board is looked at, whether the move takes in passing or not. -/
theorem captured?_of_not_onBoard {x : StoredSquare} (h : ¬ x.OnBoard) (b : StoredBoard) (mover : Piece)
    (origin : StoredSquare) (promotion : Option Kind) :
    access.captured? b.placement b.enPassant mover ⟨origin, x, promotion⟩ = .error (.noSuchRow x.number.toNat 64) := by
  have hread : access.read b.placement x = .error (.noSuchRow x.number.toNat 64) := cell_of_not_onBoard h b.placement
  unfold Access.captured? Access.captureSquare?
  split
  case isTrue =>
    rw [hread]
    rfl
  case isFalse =>
    show (access.read b.placement x >>= fun o => pure (o.map (⟨·, x⟩)) : Except Fault (Option StoredPlaced)) = _
    rw [hread]
    rfl

end StoredBoard

end Stored

end ChessEval
