/-
  ChessEval.Score.Adjust — what happens to a network's score before it is used.

  A decisive score passes untouched. Any other is adjusted in this order:
    1. a bonus (or its negative) for outrunning the material balance,
    2. a bonus for the root side when it is doing well after giving up material,
    3. the score with both, scaled by (base + total / divisor) / denominator,
    4. contempt for a draw, added,
    5. fading to zero as the moves without progress run on.
  Divisions cut toward zero. A zero divisor is a fault, but a zero horizon means that
  nothing fades. The scaled and the faded score are kept to 32 bits. Everything else is
  taken without bounds; what becomes of it in words is a matter of `Proofs.Score.Arithmetic`.
-/

import ChessEval.Score.Basic
import ChessEval.Score.Tuning

namespace ChessEval

/-- The facts of a position that the adjustments look at. -/
structure Context where
  /-- Plies from the root of the line. -/
  ply : Nat
  halfmoveClock : Nat
  /-- Both sides' material. -/
  total : Int
  /-- What the side to move has more than its opponent. -/
  advantage : Int
  /-- The advantage of the side to move at the root. -/
  rootAdvantage : Int
  deriving DecidableEq, Repr

def Context.ofPosition (pos : Position) (ply : Nat) (rootAdvantage : Int) : Context :=
  let m := Material.ofPosition pos
  { ply, halfmoveClock := pos.halfmoveClock.toNat, total := m.total, advantage := m.advantage pos.sideToMove, rootAdvantage }

/-- Every stage of one adjustment. -/
structure Trace where
  raw : Int
  /-- The raw score was decisive and passed untouched. -/
  bypassed : Bool
  excess : Int
  sacrifice : Int
  scaled : Int
  contempt : Int
  final : Int
  deriving DecidableEq, Repr

namespace Score

/-- The number of 32 bits that has the same low 32 bits. -/
def narrow (n : Int) : Int := n.bmod UInt32.size

/-- The quotient cut toward zero. -/
def quotient (n d : Int) : Except Fault Int := if d = 0 then .error .zeroDivisor else .ok (n.tdiv d)

/-- The bonus of a score that outruns the advantage by more than the threshold. -/
def excessBonus (score advantage : Int) (t : Tuning) : Except Fault Int :=
  if 0 < score ∧ advantage + t.excessThreshold < score then do
    return t.excessBase + (← quotient (score - advantage - t.excessThreshold) t.excessDivisor)
  else if score < 0 ∧ score < advantage - t.excessThreshold then do
    return -(t.excessBase + (← quotient (advantage - score - t.excessThreshold) t.excessDivisor))
  else return 0

/-- The bonus of the root side, which is to move at even plies, for material given up since the root. -/
def sacrificeBonus (score : Int) (c : Context) (t : Tuning) : Int :=
  if c.ply % 2 ≠ 0 ∨ c.total ≤ t.sacrificeFloor then 0
  else if c.rootAdvantage - t.sacrificeTrigger ≤ c.advantage then 0
  else if draw + t.sacrificeWinningMargin < score then t.sacrificeBonusWinning
  else if draw < score then t.sacrificeBonusAhead
  else 0

/-- The score times (base + total / divisor) / denominator, as one fraction cut once. -/
def scale (score total : Int) (t : Tuning) : Except Fault Int := do
  let numerator := t.scalingBase * t.scalingMaterialDivisor + total
  return narrow (← quotient (score * numerator) (t.scalingMaterialDivisor * t.scalingDenominator))

/-- The share of the score that the half-moves left before the horizon leave of it. -/
def fade (score : Int) (clock : Nat) (t : Tuning) : Int :=
  if clock = 0 ∨ t.fiftyMoveHorizon = 0 then score
  else narrow ((score * (t.fiftyMoveHorizon - clock : Nat)).tdiv t.fiftyMoveHorizon)

/-- A side behind in material welcomes a draw, one ahead avoids it. -/
def contempt (advantage : Int) (t : Tuning) : Int :=
  if advantage < 0 then draw + t.contempt else if 0 < advantage then draw - t.contempt else draw

def trace (raw : Int) (c : Context) (t : Tuning) : Except Fault Trace :=
  if isDecisive raw then
    .ok { raw, bypassed := true, excess := 0, sacrifice := 0, scaled := raw, contempt := 0, final := raw }
  else do
    let excess ← excessBonus raw c.advantage t
    let sacrifice := sacrificeBonus raw c t
    let scaled ← scale (raw + excess + sacrifice) c.total t
    let contempt := contempt c.advantage t
    return { raw, bypassed := false, excess, sacrifice, scaled, contempt,
             final := fade (scaled + contempt) c.halfmoveClock t }

def adjust (raw : Int) (c : Context) (t : Tuning) : Except Fault Int := (trace raw c t).map Trace.final

end Score

end ChessEval
