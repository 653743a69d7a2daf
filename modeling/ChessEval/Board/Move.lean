/-
  ChessEval.Board.Move — moves and their text.

  A move names the square that a piece leaves, the one it goes to, and perhaps what it
  becomes there. Castling is the king's move of two files and en passant the pawn's
  diagonal step. The text is the two names of squares, then the letter of the kind, as in
  e2e4 and e7e8q. Reading takes four or five ASCII characters, and a letter of either
  case for a knight, bishop, rook or queen. The length is judged first, then both
  squares, then the letter.
-/

import ChessEval.Piece
import ChessEval.Square

namespace ChessEval

structure Move (α : Type := Square) where
  origin : α
  target : α
  promotion : Option Kind
  deriving DecidableEq, Repr

inductive MoveTextError where
  /-- Not ASCII, or not four or five characters; the length counts UTF-8 bytes. -/
  | length (bytes : Nat)
  | square (text : String)
  | promotion (letter : Char)
  deriving DecidableEq, Repr

namespace MoveTextError

/-- The name under which the error is reported. -/
def label : MoveTextError → String
  | length _ => "InvalidLength"
  | square _ => "InvalidSquare"
  | promotion _ => "InvalidPromotion"

def message : MoveTextError → String
  | length n => s!"Move must be 4-5 characters, found {n}"
  | square text => s!"Invalid square notation in '{text}'"
  | promotion c => s!"Invalid promotion piece '{c}'"

end MoveTextError

namespace Move

def letters (m : Move) : List Char :=
  m.origin.letters ++ m.target.letters ++ (m.promotion.map Kind.letter).toList

def text (m : Move) : String := String.ofList m.letters

/-- The kind that a letter may ask for. -/
def promotionOf? (c : Char) : Option Kind := (Kind.ofLetter? c).filter Kind.isPromotion

def ofText (text : String) : Except MoveTextError Move :=
  let cs := text.toList
  if cs.any (128 ≤ ·.toNat) || cs.length < 4 || 5 < cs.length then .error (.length text.utf8ByteSize)
  else match Square.ofLetters? (cs.take 2), Square.ofLetters? ((cs.drop 2).take 2) with
    | some origin, some target =>
      match cs.drop 4 with
      | [] => .ok ⟨origin, target, none⟩
      | c :: _ =>
        match promotionOf? c with
        | some k => .ok ⟨origin, target, some k⟩
        | none => .error (.promotion c)
    | _, _ => .error (.square text)

/-- The move with both squares flipped. -/
def flip (m : Move) : Move := ⟨m.origin.flip, m.target.flip, m.promotion⟩

end Move

end ChessEval
