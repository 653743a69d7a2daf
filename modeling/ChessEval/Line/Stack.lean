/-
  ChessEval.Line.Stack — one accumulator per ply of a line.

  The stack has a fixed run of 257 slots, one for the root and one for each ply, and a
  cursor. Each slot keeps the phase whose network built its accumulator. Going down a
  ply copies the slot at the cursor and applies a change, or builds the next slot anew;
  going up only moves the cursor. What lies above the cursor is left from earlier plies
  and is overwritten before it is read.
-/

import ChessEval.Phase.Networks

namespace ChessEval

/-- The slots of a stack: the root's and one for each ply. -/
def slotCount : Nat := maxPly + 1

structure Slot where
  accumulator : Accumulator
  /-- The phase whose network built the accumulator. -/
  phase : Phase
  deriving DecidableEq

structure PlyStack where
  slots : Vector Slot slotCount
  top : Fin slotCount
  deriving DecidableEq

namespace PlyStack

def ofRoot (root : Slot) : PlyStack := ⟨.replicate slotCount root, ⟨0, by decide⟩⟩

/-- The slot that a phase's network builds for a position. -/
def slotOf (n : PhaseNetworks) (pos : Position) (phase : Phase) : Slot := ⟨.ofPosition (n.get phase) pos, phase⟩

/-- A new root; the slots above it stay as they are. -/
def reset (s : PlyStack) (root : Slot) : PlyStack :=
  { slots := s.slots.set 0 root (by decide), top := ⟨0, by decide⟩ }

/-- Plies below the root. -/
def ply (s : PlyStack) : Nat := s.top

def current (s : PlyStack) : Slot := s.slots[s.top]

/-- The stack with another slot at the cursor. -/
def replace (s : PlyStack) (slot : Slot) : PlyStack := { s with slots := s.slots.set s.top slot }

/-- The stack one ply on, where `slot` stands. -/
def advance (s : PlyStack) (slot : Slot) : Except Fault PlyStack :=
  if h : s.top + 1 < slotCount then .ok { slots := s.slots.set (s.top + 1) slot, top := ⟨s.top + 1, h⟩ }
  else .error .stackFull

/-- One ply on by a move's change, under the network that built the slot at the cursor. -/
def push (s : PlyStack) (n : PhaseNetworks) (c : Change) : Except Fault PlyStack :=
  let slot := s.current
  s.advance { slot with accumulator := slot.accumulator.apply (n.get slot.phase) c }

/-- One ply on with a slot built anew. -/
def pushRebuilt (s : PlyStack) (n : PhaseNetworks) (pos : Position) (phase : Phase) :
    Except Fault PlyStack :=
  s.advance (slotOf n pos phase)

def pop (s : PlyStack) : Except Fault PlyStack :=
  if 0 < s.top.val then .ok { s with top := ⟨s.top - 1, by omega⟩ } else .error .stackAtRoot

/-- The slot at the cursor built anew. -/
def rebuild (s : PlyStack) (n : PhaseNetworks) (pos : Position) (phase : Phase) : PlyStack :=
  s.replace (slotOf n pos phase)

end PlyStack

end ChessEval
