/-
  ChessEval.Board.Fen — boards in Forsyth–Edwards notation.

  Reading needs the placement and the side to move; castling rights, en passant target,
  half-move clock and move number default to none, none, 0 and 1, and further fields are
  ignored. The fields are read in that order and the first fault met is the error.

  A row of the placement is read character by character: a digit widens the row by its
  value (a width past 255 counts as 255), a letter puts a piece at the present width.
  A letter that names no piece is refused before the width is looked at; the width is
  looked at again when the row ends. A ninth row is refused before its first character.

  Writing uses the fewest digits, the rights in the order KQkq and a dash for none.
-/

import ChessEval.Board.Basic
import ChessEval.Text.Decimal
import ChessEval.Text.Fields
import ChessEval.Text.Quoted

namespace ChessEval

inductive FenError where
  | tooFewFields (found : Nat)
  | badPiece (letter : Char)
  | badCastling (letter : Char)
  | badSide (text : String)
  | badEnPassant (text : String)
  | badClock (text : String)
  /-- Rows are counted from 0, the eighth rank. -/
  | tooManyRows (row : Nat)
  | tooManyFiles (row files : Nat)
  deriving DecidableEq, Repr

namespace FenError

/-- The name under which the error is reported. -/
def label : FenError → String
  | tooFewFields _ => "TooFewParts"
  | badPiece _ => "InvalidPiece"
  | badCastling _ => "InvalidCastling"
  | badSide _ => "InvalidSideToMove"
  | badEnPassant _ => "InvalidEnPassant"
  | badClock _ => "InvalidHalfmoveClock"
  | tooManyRows _ => "InvalidRank"
  | tooManyFiles .. => "TooManyFiles"

def message : FenError → String
  | tooFewFields n => s!"FEN must have at least 2 parts, found {n}"
  | badPiece c => s!"Invalid piece character '{c}' in FEN"
  | badCastling c => s!"Invalid castling character '{c}' in FEN"
  | badSide text => s!"Invalid side to move '{text}', expected 'w' or 'b'"
  | badEnPassant text => s!"Invalid en passant square '{text}'"
  | badClock text => s!"Invalid halfmove clock '{text}'"
  | tooManyRows row => s!"Invalid rank index {row} in FEN"
  | tooManyFiles row files => s!"Too many files ({files}) in rank {row}"

/-- The values that the error carries, by name, characters and text in quotes. -/
def values : FenError → List (String × String)
  | tooFewFields n => [("found", toString n)]
  | badPiece c | badCastling c => [("char", Text.quotedChar c)]
  | badSide text | badEnPassant text | badClock text => [("found", Text.quotedText text)]
  | tooManyRows row => [("rank", toString row)]
  | tooManyFiles row files => [("rank", toString row), ("files", toString files)]

/-- The error as a labelled record, the form in which a caller who vouched for the text is told of it. -/
def record (e : FenError) : String :=
  e.label ++ " \x7b " ++ ", ".intercalate (e.values.map fun v => v.1 ++ ": " ++ v.2) ++ " \x7d"

end FenError

namespace Fen

/-! ## Reading -/

/-- Reads one row, given the pieces so far and the width before the characters left. -/
def readRow (row : Fin 8) (cells : Placement) (width : Nat) : List Char → Except FenError Placement
  | [] => if 8 < width then .error (.tooManyFiles row width) else .ok cells
  | c :: cs =>
    if c.isDigit then readRow row cells (min 255 (width + (c.toNat - 48))) cs
    else match Piece.ofLetter? c with
      | none => .error (.badPiece c)
      | some p =>
        match Square.ofCoords? row.rev width with
        | none => .error (.tooManyFiles row (width + 1))
        | some s => readRow row (cells.set s (some p)) (width + 1) cs

/-- Reads the rows from number `row` on. -/
def readRows (row : Nat) (cells : Placement) : List (List Char) → Except FenError Placement
  | [] => .ok cells
  | cs :: rows =>
    if h : row < 8 then
      match readRow ⟨row, h⟩ cells 0 cs with
      | .ok cells => readRows (row + 1) cells rows
      | .error e => .error e
    else .error (.tooManyRows row)

def readPlacement (field : List Char) : Except FenError Placement :=
  readRows 0 .empty (field.splitOnP (· == '/'))

def readSide : List Char → Except FenError Color
  | ['w'] => .ok .white
  | ['b'] => .ok .black
  | field => .error (.badSide (String.ofList field))

def readCastling (rights : CastlingRights) : List Char → Except FenError CastlingRights
  | [] => .ok rights
  | 'K' :: cs => readCastling (rights.grant .white .king) cs
  | 'Q' :: cs => readCastling (rights.grant .white .queen) cs
  | 'k' :: cs => readCastling (rights.grant .black .king) cs
  | 'q' :: cs => readCastling (rights.grant .black .queen) cs
  | '-' :: cs => readCastling rights cs
  | c :: _ => .error (.badCastling c)

def readEnPassant : List Char → Except FenError (Option Square)
  | ['-'] => .ok none
  | field =>
    match Square.ofLetters? field with
    | some s => .ok (some s)
    | none => .error (.badEnPassant (String.ofList field))

def readClock : Option (List Char) → Except FenError UInt32
  | none => .ok 0
  | some field =>
    match Text.unsigned? 32 field with
    | some n => .ok (.ofNat n)
    | none => .error (.badClock (String.ofList field))

/-- The number of the move; anything that is no number counts as 1. -/
def readNumber (field : Option (List Char)) : UInt32 := .ofNat ((field.bind (Text.unsigned? 32)).getD 1)

def readFields : List (List Char) → Except FenError Board
  | placement :: side :: rest => do
    let placement ← readPlacement placement
    let sideToMove ← readSide side
    let castling ← readCastling .none (rest[0]?.getD ['-'])
    let enPassant ← readEnPassant (rest[1]?.getD ['-'])
    let halfmoveClock ← readClock rest[2]?
    return { placement, sideToMove, castling, enPassant, halfmoveClock, fullmoveNumber := readNumber rest[3]? }
  | few => .error (.tooFewFields few.length)

/-! ## Writing -/

/-- Writes one row, `run` empty squares having been passed since the last piece. -/
def rowLetters (run : Nat) : List (Option Piece) → List Char
  | [] => if run = 0 then [] else Text.digits run
  | none :: cells => rowLetters (run + 1) cells
  | some p :: cells => (if run = 0 then [] else Text.digits run) ++ p.letter :: rowLetters 0 cells

/-- The squares of a rank from the a-file on. -/
def rankSquares (rank : Fin 8) : List Square := (List.finRange 8).map (Square.ofCoords rank)

/-- The rows from the eighth rank down. -/
def placementRows (p : Placement) : List (List Char) :=
  (List.finRange 8).map fun row => rowLetters 0 ((rankSquares row.rev).map p.get)

def sideLetter : Color → Char
  | .white => 'w'
  | .black => 'b'

/-- The rights with their letters, in writing order. -/
def castlingLetters : List (Char × Color × Wing) :=
  [('K', .white, .king), ('Q', .white, .queen), ('k', .black, .king), ('q', .black, .queen)]

def castlingField (r : CastlingRights) : List Char :=
  match (castlingLetters.filter fun (_, c, w) => r.has c w).map (·.1) with
  | [] => ['-']
  | letters => letters

def enPassantField : Option Square → List Char
  | some s => s.letters
  | none => ['-']

def writtenFields (b : Board) : List (List Char) :=
  [['/'].intercalate (placementRows b.placement), [sideLetter b.sideToMove], castlingField b.castling,
   enPassantField b.enPassant, Text.digits b.halfmoveClock.toNat, Text.digits b.fullmoveNumber.toNat]

end Fen

namespace Board

def ofFen (fen : String) : Except FenError Board := Fen.readFields (Text.fields fen.toList)

def fen (b : Board) : String := String.ofList ([' '].intercalate (Fen.writtenFields b))

/-- The board of a text that the caller vouches for; where the text is none, what the caller is told. -/
def ofTrustedFen (fen : String) : Except String Board := (ofFen fen).mapError fun e => s!"Invalid FEN string: {e.record}"

end Board

end ChessEval
