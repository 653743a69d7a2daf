/-
  ChessEval.Board.Basic — positions and boards.

  - `Placement`: which piece, if any, stands on each of the 64 squares.
  - `Position`: what an evaluation may look at — the placement, the side to move and
    the half-moves since the last capture or pawn move.
  - `Board`: a position with what playing on needs besides — the en passant target,
    the castling rights and the number of the move. The two clocks are 32-bit words.
  A right of castling is held per side and wing; it is lost once anything leaves or
  lands on the king's or the rook's home square.
-/

import ChessEval.Change

namespace ChessEval

structure Placement where
  cells : Vector (Option Piece) 64
  deriving DecidableEq, Repr

namespace Placement

def ofFn (f : Square → Option Piece) : Placement := ⟨.ofFn fun i => f ⟨i⟩⟩

def empty : Placement := ofFn fun _ => none

def get (p : Placement) (s : Square) : Option Piece := p.cells[s.index]

def set (p : Placement) (s : Square) (o : Option Piece) : Placement := ⟨p.cells.set s.index o⟩

/-- The pieces with their squares, in the order of the squares. -/
def occupied (p : Placement) : List PlacedPiece :=
  Square.all.filterMap fun s => (p.get s).map (⟨·, s⟩)

/-- Every piece recoloured, on the flipped square. -/
def flip (p : Placement) : Placement := ofFn fun s => (p.get s.flip).map Piece.recolored

@[ext] theorem ext {p q : Placement} (h : ∀ s, p.get s = q.get s) : p = q := by
  cases p; cases q
  rw [mk.injEq]
  exact Vector.ext fun i hi => h ⟨⟨i, hi⟩⟩

@[simp] theorem get_ofFn (f : Square → Option Piece) (s : Square) : (ofFn f).get s = f s := by
  simp [get, ofFn]

@[simp] theorem get_empty (s : Square) : empty.get s = none := by simp [empty]

theorem get_set (p : Placement) (s t : Square) (o : Option Piece) :
    (p.set s o).get t = if s = t then o else p.get t := by
  simp only [get, set, Fin.getElem_fin, Vector.getElem_set]
  by_cases h : s = t
  · simp [h]
  · have hi : s.index.val ≠ t.index.val := fun e => h (Square.ext e)
    simp [h, hi]

/-- The initial array of pieces. -/
def start : Placement := ofFn fun s =>
  let home : Vector Kind 8 := #v[.rook, .knight, .bishop, .queen, .king, .bishop, .knight, .rook]
  match s.rank with
  | 0 => some ⟨.white, home[s.file]⟩
  | 1 => some ⟨.white, .pawn⟩
  | 6 => some ⟨.black, .pawn⟩
  | 7 => some ⟨.black, home[s.file]⟩
  | _ => none

end Placement

structure Position where
  placement : Placement
  sideToMove : Color
  /-- Half-moves since the last capture or pawn move. -/
  halfmoveClock : UInt32
  deriving DecidableEq, Repr

namespace Position

def pieceOn (p : Position) (s : Square) : Option Piece := p.placement.get s

def occupied (p : Position) : List PlacedPiece := p.placement.occupied

/-- The position as the other side would see its own. -/
def flip (p : Position) : Position := ⟨p.placement.flip, p.sideToMove.opponent, p.halfmoveClock⟩

end Position

/-! ## Castling rights -/

inductive Wing where
  | king
  | queen
  deriving DecidableEq, Repr

/-- The rank, counted from White's side, on which this side's pieces start. -/
def Color.backRank : Color → Fin 8
  | .white => 0
  | .black => 7

def Color.kingHome (c : Color) : Square := .ofCoords c.backRank 4

def Color.rookHome (c : Color) : Wing → Square
  | .king => .ofCoords c.backRank 7
  | .queen => .ofCoords c.backRank 0

/-- The square that the king reaches by castling. -/
def Color.kingCastled (c : Color) : Wing → Square
  | .king => .ofCoords c.backRank 6
  | .queen => .ofCoords c.backRank 2

/-- The square that the rook reaches by castling. -/
def Color.rookCastled (c : Color) : Wing → Square
  | .king => .ofCoords c.backRank 5
  | .queen => .ofCoords c.backRank 3

structure CastlingRights where
  whiteKing : Bool
  whiteQueen : Bool
  blackKing : Bool
  blackQueen : Bool
  deriving DecidableEq, Repr

namespace CastlingRights

def has (r : CastlingRights) : Color → Wing → Bool
  | .white, .king => r.whiteKing
  | .white, .queen => r.whiteQueen
  | .black, .king => r.blackKing
  | .black, .queen => r.blackQueen

def ofFn (f : Color → Wing → Bool) : CastlingRights :=
  ⟨f .white .king, f .white .queen, f .black .king, f .black .queen⟩

def none : CastlingRights := ofFn fun _ _ => false

def all : CastlingRights := ofFn fun _ _ => true

def grant (r : CastlingRights) (c : Color) (w : Wing) : CastlingRights :=
  ofFn fun c' w' => r.has c' w' || (c' = c && w' = w)

/-- The rights left when a piece has left or reached `s`. -/
def touch {α : Type} [SquareName α] (r : CastlingRights) (s : α) : CastlingRights :=
  ofFn fun c w => r.has c w && SquareName.number s ≠ c.kingHome.index && SquareName.number s ≠ (c.rookHome w).index

/-- White's rights given to Black and Black's to White. -/
def flip (r : CastlingRights) : CastlingRights := ofFn fun c w => r.has c.opponent w

@[simp] theorem has_ofFn (f : Color → Wing → Bool) (c : Color) (w : Wing) : (ofFn f).has c w = f c w := by
  cases c <;> cases w <;> rfl

@[ext] theorem ext {r s : CastlingRights} (h : ∀ c w, r.has c w = s.has c w) : r = s := by
  have h1 := h .white .king; have h2 := h .white .queen; have h3 := h .black .king; have h4 := h .black .queen
  simp only [has] at h1 h2 h3 h4
  cases r; cases s; simp_all

end CastlingRights

/-! ## Boards -/

structure Board (α : Type := Square) extends Position where
  /-- The square that a pawn has just passed over with a double step. -/
  enPassant : Option α
  castling : CastlingRights
  fullmoveNumber : UInt32
  deriving DecidableEq, Repr

namespace Board

def empty : Board := ⟨⟨.empty, .white, 0⟩, none, .none, 1⟩

def start : Board := ⟨⟨.start, .white, 0⟩, none, .all, 1⟩

def put (b : Board) (s : Square) (p : Piece) : Board := { b with placement := b.placement.set s (some p) }

/-- The board without what stood on `s`, which is the second component. -/
def take (b : Board) (s : Square) : Board × Option Piece :=
  ({ b with placement := b.placement.set s none }, b.pieceOn s)

/-- The board as the other side would see its own; the number of the move stays. -/
def flip (b : Board) : Board :=
  { toPosition := b.toPosition.flip, enPassant := b.enPassant.map Square.flip, castling := b.castling.flip,
    fullmoveNumber := b.fullmoveNumber }

end Board

end ChessEval
