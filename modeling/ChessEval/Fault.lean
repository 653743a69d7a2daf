/-
  ChessEval.Fault — the ways in which a call breaks the contract of the library.

  Unlike a rejected FEN or move, a fault means that the caller went on where no answer
  exists: a line deeper than the stack, an undo at its root, a third removal in one
  change, a zero divisor among the tuning values, a network row that does not exist.
-/

namespace ChessEval

/-- The greatest number of plies of one line. -/
def maxPly : Nat := 256

inductive Fault where
  | stackFull
  | stackAtRoot
  | tooManyRemoved
  | tooManyAdded
  | zeroDivisor
  | noSuchRow (row rows : Nat)
  deriving DecidableEq, Repr

def Fault.message : Fault → String
  | stackFull => s!"accumulator stack overflow: cannot search beyond {maxPly} plies"
  | stackAtRoot => "accumulator stack underflow: pop at the root"
  | tooManyRemoved => "a move removes at most two pieces"
  | tooManyAdded => "a move adds at most two pieces"
  | zeroDivisor => "attempt to divide by zero"
  | noSuchRow row rows => s!"index out of bounds: the len is {rows} but the index is {row}"

end ChessEval
