/-
  ChessEval.Score.Tuning — the numbers that phase detection and the score adjustments
  can be tuned by, and the values they have by default.
-/

namespace ChessEval

structure Tuning where
  /-- The phase is detected at this depth and beyond. -/
  phaseCheckDepth : Int := 6
  /-- How far below a draw the endgame network takes over. -/
  endgameMargin : Int := 100
  /-- How far above a draw the sacrifice network takes over. -/
  sacrificeMargin : Int := 300
  /-- How far a score must outrun the material balance to earn a bonus. -/
  excessThreshold : Int := 50
  excessBase : Int := 25
  /-- What the excess over the threshold is divided by. -/
  excessDivisor : Int := 10
  /-- A sacrifice counts only with more material than this on the board. -/
  sacrificeFloor : Int := 3500
  /-- The loss of material against the root that counts as a sacrifice. -/
  sacrificeTrigger : Int := 100
  sacrificeBonusWinning : Int := 80
  sacrificeBonusAhead : Int := 40
  /-- Above this score the larger bonus is paid. -/
  sacrificeWinningMargin : Int := 300
  scalingBase : Int := 750
  scalingMaterialDivisor : Int := 25
  scalingDenominator : Int := 1024
  /-- Half-moves without progress after which a score has faded to nothing; zero for never. -/
  fiftyMoveHorizon : Nat := 200
  contempt : Int := 50
  deriving DecidableEq, Repr

end ChessEval
