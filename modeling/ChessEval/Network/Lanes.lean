/-
  ChessEval.Network.Lanes — vectors of 768 lanes, one 16-bit word for each hidden unit.

  Lanes are added and subtracted modulo 2^16, so a sum built step by step is the same
  whatever the order of its steps. The activation of a lane is its value clipped to
  0 … 255 and squared. One weighted activation fits in 32 bits; their sum is kept in 64.
-/

namespace ChessEval

/-- Units of the hidden layer. -/
abbrev hiddenSize : Nat := 768

/-- The ceiling of the activation, and the scale of the lanes: 255 stands for 1. -/
def activationScale : Int16 := 255

abbrev Lanes := Vector Int16 hiddenSize

namespace Lanes

def zero : Lanes := .replicate hiddenSize 0

def add (x y : Lanes) : Lanes := x.zipWith (· + ·) y

def sub (x y : Lanes) : Lanes := x.zipWith (· - ·) y

def clip (x : Int16) : Int32 :=
  if x < 0 then 0 else if activationScale < x then activationScale.toInt32 else x.toInt32

/-- The square of the clipped lane, weighted. -/
def weighted (x w : Int16) : Int32 := clip x * clip x * w.toInt32

/-- The weighted activations of all lanes, summed. -/
def dot (x w : Lanes) : Int64 := Fin.foldl hiddenSize (fun s i => s + (weighted x[i] w[i]).toInt64) 0

theorem getElem_add (x y : Lanes) (i : Nat) (h : i < hiddenSize) : (x.add y)[i] = x[i] + y[i] := by simp [add]

theorem getElem_sub (x y : Lanes) (i : Nat) (h : i < hiddenSize) : (x.sub y)[i] = x[i] - y[i] := by simp [sub]

end Lanes

end ChessEval
