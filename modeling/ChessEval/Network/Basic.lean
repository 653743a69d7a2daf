/-
  ChessEval.Network.Basic — networks, accumulators and the forward pass.

  A network maps 768 inputs to 768 hidden units and those, seen from both sides, to one
  score. An accumulator holds the hidden sums of both sides: the bias plus the row of
  every input that is on. It is kept up to date by adding and subtracting rows.

  The score is for the side to move: its own lanes go through the first output weights,
  the opponent's through the second. The sum is divided by 255, the output bias added,
  and the result times 400 divided by 255 · 64; both divisions cut toward zero. The
  arithmetic is in 64 bits, of which the last step keeps the low 32.
-/

import ChessEval.Board.Basic
import ChessEval.Network.Input
import ChessEval.Network.Lanes

namespace ChessEval

/-- The scale of the output weights: 64 stands for 1. -/
def weightScale : Int64 := 64

/-- Score units for an output of 1. -/
def scoreScale : Int64 := 400

structure Network where
  /-- One row of weights per input. -/
  rows : Vector Lanes inputSize
  hiddenBias : Lanes
  /-- Output weights for the lanes of the side to move. -/
  own : Lanes
  /-- Output weights for the lanes of its opponent. -/
  other : Lanes
  outputBias : Int16
  deriving DecidableEq

def Network.zero : Network := ⟨.replicate inputSize .zero, .zero, .zero, .zero, 0⟩

structure Accumulator where
  white : Lanes
  black : Lanes
  deriving DecidableEq

namespace Accumulator

def zero : Accumulator := ⟨.zero, .zero⟩

/-- Both sides at the given bias: no input is on. -/
def ofBias (bias : Lanes) : Accumulator := ⟨bias, bias⟩

def lanes (a : Accumulator) : Color → Lanes
  | .white => a.white
  | .black => a.black

/-- The accumulator with White's and Black's lanes exchanged. -/
def swap (a : Accumulator) : Accumulator := ⟨a.black, a.white⟩

def place (net : Network) (a : Accumulator) (p : PlacedPiece) : Accumulator :=
  ⟨a.white.add net.rows[p.input .white], a.black.add net.rows[p.input .black]⟩

def lift (net : Network) (a : Accumulator) (p : PlacedPiece) : Accumulator :=
  ⟨a.white.sub net.rows[p.input .white], a.black.sub net.rows[p.input .black]⟩

/-- The accumulator after a move's change: first what left, then what arrived. -/
def apply (net : Network) (a : Accumulator) (c : Change) : Accumulator :=
  c.added.foldl (place net) (c.removed.foldl (lift net) a)

/-- The accumulator of a position, built from the bias and every piece. -/
def ofPosition (net : Network) (pos : Position) : Accumulator :=
  pos.occupied.foldl (place net) (ofBias net.hiddenBias)

/-- Adds or subtracts the row of one input, by number, for one side. -/
def update (net : Network) (a : Accumulator) (side : Color) (row : Nat) (add : Bool) : Except Fault Accumulator :=
  if h : row < inputSize then
    let step (x : Lanes) := if add then x.add net.rows[row] else x.sub net.rows[row]
    match side with
    | .white => .ok { a with white := step a.white }
    | .black => .ok { a with black := step a.black }
  else .error (.noSuchRow row inputSize)

end Accumulator

/-- The score of an accumulator for the side to move. -/
def Network.evaluate (net : Network) (a : Accumulator) (toMove : Color) : Int :=
  let sum := (a.lanes toMove).dot net.own + (a.lanes toMove.opponent).dot net.other
  let output := sum / activationScale.toInt64
  ((output + net.outputBias.toInt64) * scoreScale / (activationScale.toInt64 * weightScale)).toInt32.toInt

end ChessEval
