/-
  ChessEval.Piece — kinds of pieces, coloured pieces, their letters and their one-byte codes.

  A kind has an index (pawn 0 … king 5), a letter and a material value; the king's
  value is zero, since material counts only what can be lost. A coloured piece is
  written with the kind's letter, upper case for White. Hosts that keep a piece in
  one byte use 1 … 6 for White's pawn … king and 9 … 14 for Black's.
-/

import ChessEval.Color

namespace ChessEval

inductive Kind where
  | pawn
  | knight
  | bishop
  | rook
  | queen
  | king
  deriving DecidableEq, Repr

namespace Kind

/-- The kinds in the order of their indices. -/
def all : List Kind := [pawn, knight, bishop, rook, queen, king]

def index : Kind → Fin 6
  | pawn => 0
  | knight => 1
  | bishop => 2
  | rook => 3
  | queen => 4
  | king => 5

def ofIndex? (i : Nat) : Option Kind := all[i]?

def letter : Kind → Char
  | pawn => 'p'
  | knight => 'n'
  | bishop => 'b'
  | rook => 'r'
  | queen => 'q'
  | king => 'k'

/-- Either case of the kind's letter; no letter outside ASCII stands for a piece. -/
def ofLetter? : Char → Option Kind
  | 'p' | 'P' => some pawn
  | 'n' | 'N' => some knight
  | 'b' | 'B' => some bishop
  | 'r' | 'R' => some rook
  | 'q' | 'Q' => some queen
  | 'k' | 'K' => some king
  | _ => none

/-- Material value in hundredths of a pawn. -/
def value : Kind → Int
  | pawn => 100
  | knight => 320
  | bishop => 330
  | rook => 500
  | queen => 900
  | king => 0

/-- Whether a move's text may ask for this kind. -/
def isPromotion : Kind → Bool
  | knight | bishop | rook | queen => true
  | pawn | king => false

@[simp] theorem ofLetter?_letter (k : Kind) : ofLetter? k.letter = some k := by cases k <;> rfl

@[simp] theorem ofIndex?_index (k : Kind) : ofIndex? k.index = some k := by cases k <;> rfl

end Kind

structure Piece where
  color : Color
  kind : Kind
  deriving DecidableEq, Repr

namespace Piece

def letter (p : Piece) : Char :=
  match p.color with
  | .white => p.kind.letter.toUpper
  | .black => p.kind.letter

/-- The piece of a letter: upper case is White's. -/
def ofLetter? (c : Char) : Option Piece :=
  (Kind.ofLetter? c).map fun k => ⟨if c.isUpper then .white else .black, k⟩

@[simp] theorem ofLetter?_letter (p : Piece) : ofLetter? p.letter = some p := by
  rcases p with ⟨c, k⟩
  cases c <;> cases k <;> rfl

/-- The one-byte code: White from 1, Black from 9, in the order of the kinds. -/
def code (p : Piece) : Nat :=
  match p.color with
  | .white => 1 + p.kind.index
  | .black => 9 + p.kind.index

def ofCode? : Nat → Option Piece
  | 0 => none
  | n + 1 =>
    if n < 8 then (Kind.ofIndex? n).map (⟨.white, ·⟩)
    else (Kind.ofIndex? (n - 8)).map (⟨.black, ·⟩)

@[simp] theorem ofCode?_code (p : Piece) : ofCode? p.code = some p := by
  rcases p with ⟨c, k⟩
  cases c <;> cases k <;> rfl

/-- The same kind on the other side. -/
def recolored (p : Piece) : Piece := { p with color := p.color.opponent }

end Piece

end ChessEval
