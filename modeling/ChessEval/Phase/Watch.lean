/-
  ChessEval.Phase.Watch — which phase a preliminary score speaks for, and when to ask.

  From the check depth on, a score well below a draw speaks for the endgame network and
  one well above for the sacrifice network; everything else is middlegame. A watch
  remembers the last depth at which it asked and does not ask again at the same depth.
-/

import ChessEval.Phase.Basic
import ChessEval.Score.Basic
import ChessEval.Score.Tuning

namespace ChessEval

def Phase.ofScore (score depth : Int) (t : Tuning) : Phase :=
  if t.phaseCheckDepth ≤ depth then
    if score < Score.draw - t.endgameMargin then .endgame
    else if score > Score.draw + t.sacrificeMargin then .sacrifice
    else .middlegame
  else .middlegame

structure PhaseWatch where
  lastDepth : Option Int
  deriving DecidableEq, Repr

namespace PhaseWatch

def fresh : PhaseWatch := ⟨none⟩

/-- Whether an evaluation at this depth has to detect the phase anew. -/
def isDue (d : PhaseWatch) (depth : Int) (t : Tuning) : Bool :=
  t.phaseCheckDepth ≤ depth && d.lastDepth ≠ some depth

/-- Detects the phase if that is due; only then is the preliminary score asked for. -/
def detect {m : Type → Type} [Monad m] (d : PhaseWatch) (depth : Int) (t : Tuning) (preliminary : m Int) :
    m (Option Phase × PhaseWatch) :=
  if d.isDue depth t then do
    let score ← preliminary
    pure (some (Phase.ofScore score depth t), ⟨some depth⟩)
  else pure (none, d)

theorem isDue_iff {d : PhaseWatch} {depth : Int} {t : Tuning} :
    d.isDue depth t ↔ t.phaseCheckDepth ≤ depth ∧ d.lastDepth ≠ some depth := by
  simp [isDue]

/-- What a watch answers if the score is at hand. -/
theorem run_detect (d : PhaseWatch) (depth : Int) (t : Tuning) (score : Int) :
    Id.run (d.detect depth t score) =
      if d.isDue depth t then (some (Phase.ofScore score depth t), ⟨some depth⟩) else (none, d) := by
  unfold detect
  split
  · rfl
  · rfl

end PhaseWatch

end ChessEval
