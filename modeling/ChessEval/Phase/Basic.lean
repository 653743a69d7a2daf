/-
  ChessEval.Phase.Basic — the phases of a game, as far as the choice of a network goes.
-/

namespace ChessEval

inductive Phase where
  | middlegame
  | endgame
  | sacrifice
  deriving DecidableEq, Repr

namespace Phase

/-- The phases in the order of their indices. -/
def all : List Phase := [middlegame, endgame, sacrifice]

/-- The phase in which every line starts. -/
def initial : Phase := middlegame

def index : Phase → Fin 3
  | middlegame => 0
  | endgame => 1
  | sacrifice => 2

def ofIndex? (i : Nat) : Option Phase := all[i]?

def name : Phase → String
  | middlegame => "middlegame"
  | endgame => "endgame"
  | sacrifice => "sacrifice"

@[simp] theorem ofIndex?_index (p : Phase) : ofIndex? p.index = some p := by cases p <;> rfl

end Phase

end ChessEval
