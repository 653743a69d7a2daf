/-
  ChessEval.Phase.Networks — one network per phase, and the slot that a process shares.

  Three networks are read together, from blobs or from files in the order of the phases.
  The strict readers stop at the first failure. `loadEach` goes on: a phase whose file
  fails gets the zero network, and the answer says whether all three could be had.

  The shared slot is empty until a set is installed or a loader has given one, and holds
  that set from then on. A loader runs only while the slot is empty, and one that fails
  leaves it so.
-/

import ChessEval.Network.Blob
import ChessEval.Phase.Basic

namespace ChessEval

structure PhaseNetworks where
  middlegame : Network
  endgame : Network
  sacrifice : Network
  deriving DecidableEq

namespace PhaseNetworks

def zero : PhaseNetworks := ⟨.zero, .zero, .zero⟩

def get (n : PhaseNetworks) : Phase → Network
  | .middlegame => n.middlegame
  | .endgame => n.endgame
  | .sacrifice => n.sacrifice

/-- The score of an accumulator under a phase's network. -/
def evaluate (n : PhaseNetworks) (a : Accumulator) (phase : Phase) (toMove : Color) : Int :=
  (n.get phase).evaluate a toMove

def ofBlobs (middlegame endgame sacrifice : ByteArray) : Except NetworkError PhaseNetworks := do
  return ⟨← Network.ofBlob middlegame, ← Network.ofBlob endgame, ← Network.ofBlob sacrifice⟩

def ofFiles (middlegame endgame sacrifice : FileRead) : Except NetworkError PhaseNetworks := do
  return ⟨← Network.load middlegame, ← Network.load endgame, ← Network.load sacrifice⟩

/-- The networks of the files that load, zero for the others, and whether all loaded. -/
def loadEach (middlegame endgame sacrifice : FileRead) : PhaseNetworks × Bool :=
  let load (file : FileRead) : Network × Bool :=
    match Network.load file with
    | .ok net => (net, true)
    | .error _ => (.zero, false)
  let m := load middlegame
  let e := load endgame
  let s := load sacrifice
  (⟨m.1, e.1, s.1⟩, m.2 && e.2 && s.2)

end PhaseNetworks

structure SharedNetworks where
  held : Option PhaseNetworks

namespace SharedNetworks

def empty : SharedNetworks := ⟨none⟩

/-- Installs a set in an empty slot; a full slot hands it back as the error. -/
def install (s : SharedNetworks) (n : PhaseNetworks) : Except PhaseNetworks PhaseNetworks × SharedNetworks :=
  match s.held with
  | none => (.ok n, ⟨some n⟩)
  | some _ => (.error n, s)

/-- The set held, or else the one that `load` gives. -/
def getOrLoad {m : Type → Type} [Monad m] (s : SharedNetworks) (load : m (Except NetworkError PhaseNetworks)) :
    m (Except NetworkError PhaseNetworks × SharedNetworks) :=
  match s.held with
  | some n => pure (.ok n, s)
  | none => do
    match ← load with
    | .ok n => pure (.ok n, ⟨some n⟩)
    | .error e => pure (.error e, s)

end SharedNetworks

end ChessEval
