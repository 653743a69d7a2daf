/-
  ChessEval.Line.Basic — evaluation along a line of play.

  A line holds what one search line needs to score its positions: the networks, the
  tuning, the phase in force, the watch over it, the stack of accumulators, and the material
  advantage of the side to move at the root. The position itself is the caller's.

  - `push` / `pop` follow a move made and taken back. If the slot at the cursor was built
    by the network of the phase in force, its accumulator is carried on; otherwise the
    new slot is built from the position.
  - `evaluate` first rebuilds a stale slot, then lets the watch ask, rebuilds again
    if the phase changed, and adjusts the score of the network in force.
-/

import ChessEval.Line.Stack
import ChessEval.Phase.Watch
import ChessEval.Score.Adjust

namespace ChessEval

structure Line where
  networks : PhaseNetworks
  tuning : Tuning
  phase : Phase
  watch : PhaseWatch
  stack : PlyStack
  rootAdvantage : Int
  deriving DecidableEq

namespace Line

/-- The advantage of the side to move. -/
def advantageOf (pos : Position) : Int := (Material.ofPosition pos).advantage pos.sideToMove

/-- A new line from the position. -/
def start (networks : PhaseNetworks) (pos : Position) (tuning : Tuning) : Line :=
  { networks, tuning, phase := .initial, watch := .fresh,
    stack := .ofRoot (PlyStack.slotOf networks pos .initial), rootAdvantage := advantageOf pos }

/-- The line begun again from the position, with the stack it has. -/
def restart (l : Line) (pos : Position) : Line :=
  { l with phase := .initial, watch := .fresh,
           stack := l.stack.reset (PlyStack.slotOf l.networks pos .initial), rootAdvantage := advantageOf pos }

/-- The line after a move; `pos` is the position it led to. -/
def push (l : Line) (pos : Position) (c : Change) : Except Fault Line := do
  let stack ← if l.stack.current.phase = l.phase then l.stack.push l.networks c
    else l.stack.pushRebuilt l.networks pos l.phase
  return { l with stack }

/-- The line after a move was taken back. -/
def pop (l : Line) : Except Fault Line := do
  let stack ← l.stack.pop
  return { l with stack }

def ply (l : Line) : Nat := l.stack.ply

def accumulator (l : Line) : Accumulator := l.stack.current.accumulator

/-- The line with the slot at the cursor built by the network in force. -/
def sync (l : Line) (pos : Position) : Line :=
  if l.stack.current.phase = l.phase then l else { l with stack := l.stack.rebuild l.networks pos l.phase }

/-- The score of the slot at the cursor under the network in force. -/
def rawScore (l : Line) (pos : Position) : Int := l.networks.evaluate l.accumulator l.phase pos.sideToMove

/-- The line after the watch has asked, if at this depth it does. -/
def detect (l : Line) (pos : Position) (depth : Int) : Line :=
  match Id.run (l.watch.detect depth l.tuning (l.rawScore pos)) with
  | (some phase, watch) =>
    if phase = l.phase then { l with watch }
    else { l with watch, phase, stack := l.stack.rebuild l.networks pos phase }
  | (none, watch) => { l with watch }

/-- Scores the position for the side to move, at a search depth and so many plies from the root. -/
def evaluate (l : Line) (pos : Position) (depth : Int) (ply : Nat) : Except Fault Trace × Line :=
  let l := (l.sync pos).detect pos depth
  (Score.trace (l.rawScore pos) (.ofPosition pos ply l.rootAdvantage) l.tuning, l)

end Line

end ChessEval
