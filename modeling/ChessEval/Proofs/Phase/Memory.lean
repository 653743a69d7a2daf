/-
  ChessEval.Proofs.Phase.Memory — what a watch remembers of the prompts given to it.

  A `Prompt` asks a watch to detect the phase at a depth, with the preliminary score that it
  would be given, or makes it forget. Its `Answer` is the phase, if there is one, and how
  often the score was asked for. A detection is deep if it is at the check depth or beyond.

  The watch keeps one depth. What that depth has to be is said of the history of prompts
  alone (`lastDeep?`): the latest deep detection since the watch last forgot.

  - `lastDepth_after`: it is that depth, after every history.
  - `respond_detect`: a detection is answered, and its score asked for once, or neither, and
    then the watch stays as it is.
  - `answers_deep`: shallow detections can be left out of any list of prompts.
  - `watch_asks_once_per_run_of_depths`: all this of a fresh watch.
-/

import ChessEval.Phase.Watch
import Mathlib.Data.List.Induction

namespace ChessEval

namespace PhaseWatch

/-! ## Prompts -/

inductive Prompt where
  /-- A detection at a depth; the score is what it gets if it asks. -/
  | detect (depth score : Int)
  | reset
  deriving DecidableEq, Repr

structure Answer where
  phase : Option Phase
  /-- How often the preliminary score was asked for. -/
  asked : Nat
  deriving DecidableEq, Repr

/-- The score, with a count of how often it is asked for. -/
def counted (score : Int) : StateM Nat Int := do
  modify (· + 1)
  return score

variable (t : Tuning)

def respond (d : PhaseWatch) : Prompt → Answer × PhaseWatch
  | .detect depth score =>
    let ((phase, d), asked) := Id.run ((d.detect depth t (counted score)).run 0)
    (⟨phase, asked⟩, d)
  | .reset => (⟨none, 0⟩, .fresh)

/-- The answers to prompts given one after the other. -/
def answers (d : PhaseWatch) : List Prompt → List Answer
  | [] => []
  | r :: rs => (d.respond t r).1 :: answers (d.respond t r).2 rs

/-- A fresh watch after a history of prompts. -/
def after (history : List Prompt) : PhaseWatch := history.foldl (fun d r => (d.respond t r).2) .fresh

/-! ## The history -/

namespace Prompt

/-- The depth of a deep detection. -/
def deep? : Prompt → Option Int
  | detect depth _ => if t.phaseCheckDepth ≤ depth then some depth else none
  | reset => none

def isShallow : Prompt → Bool
  | detect depth _ => depth < t.phaseCheckDepth
  | reset => false

end Prompt

/-- The depth of the latest deep detection since the last reset. -/
def lastDeep? (history : List Prompt) : Option Int :=
  (history.reverse.takeWhile (· ≠ .reset)).findSome? (Prompt.deep? t)

theorem lastDeep?_concat_reset (history : List Prompt) : lastDeep? t (history ++ [.reset]) = none := by
  simp [lastDeep?]

theorem lastDeep?_concat_detect (history : List Prompt) (depth score : Int) :
    lastDeep? t (history ++ [.detect depth score]) =
      if t.phaseCheckDepth ≤ depth then some depth else lastDeep? t history := by
  by_cases hdeep : t.phaseCheckDepth ≤ depth
  · simp [lastDeep?, Prompt.deep?, hdeep]
  · simp [lastDeep?, Prompt.deep?, hdeep]

/-! ## One prompt -/

theorem respond_detect (d : PhaseWatch) (depth score : Int) :
    d.respond t (.detect depth score) =
      if t.phaseCheckDepth ≤ depth ∧ d.lastDepth ≠ some depth then
        (⟨some (Phase.ofScore score depth t), 1⟩, ⟨some depth⟩)
      else (⟨none, 0⟩, d) := by
  by_cases hdue : t.phaseCheckDepth ≤ depth ∧ d.lastDepth ≠ some depth
  · rw [if_pos hdue, respond, detect, if_pos (isDue_iff.mpr hdue)]
    rfl
  · rw [if_neg hdue, respond, detect, if_neg (mt isDue_iff.mp hdue)]
    rfl

variable {t} in
theorem respond_of_isShallow {r : Prompt} (h : r.isShallow t) (d : PhaseWatch) : d.respond t r = (⟨none, 0⟩, d) := by
  cases r with
  | detect depth score =>
    have hshallow : ¬ t.phaseCheckDepth ≤ depth := Int.not_le.mpr (of_decide_eq_true h)
    rw [respond_detect, if_neg fun hdue => hshallow hdue.1]
  | reset => cases h

/-! ## A history -/

theorem after_concat (history : List Prompt) (r : Prompt) :
    after t (history ++ [r]) = ((after t history).respond t r).2 := by
  simp [after]

/-- The induction takes the history from its end, where the latest prompt is. -/
theorem lastDepth_after (history : List Prompt) : (after t history).lastDepth = lastDeep? t history := by
  induction history using List.reverseRecOn with
  | nil => rfl
  | append_singleton history r ih =>
    rw [after_concat]
    cases r with
    | reset =>
      rw [lastDeep?_concat_reset]
      rfl
    | detect depth score =>
      rw [lastDeep?_concat_detect, respond_detect]
      by_cases hdue : t.phaseCheckDepth ≤ depth ∧ (after t history).lastDepth ≠ some depth
      · rw [if_pos hdue, if_pos hdue.1]
      · rw [if_neg hdue]
        show (after t history).lastDepth = _
        -- a deep detection that is not due is at the depth that the watch has already
        split
        · rename_i hdeep
          exact not_not.mp fun hne => hdue ⟨hdeep, hne⟩
        · exact ih

/-- The answers to the prompts that are not shallow are the same without the others. -/
theorem answers_deep (d : PhaseWatch) (rs : List Prompt) :
    d.answers t (rs.filter fun r => !r.isShallow t) =
      ((rs.zip (d.answers t rs)).filter fun x => !x.1.isShallow t).map (·.2) := by
  induction rs generalizing d with
  | nil => rfl
  | cons r rs ih =>
    by_cases hshallow : r.isShallow t
    · have hstays : (d.respond t r).2 = d := by rw [respond_of_isShallow hshallow]
      simp only [answers, List.zip_cons_cons, List.filter_cons, hshallow, Bool.not_true, Bool.false_eq_true, if_false,
        hstays]
      exact ih d
    · simp only [answers, List.zip_cons_cons, List.filter_cons, hshallow, Bool.not_false, if_true, List.map_cons]
      rw [ih]

/-- After every history of prompts to a fresh watch, it has the depth of the latest deep detection
    since the last reset. A detection is given a phase, the one its score speaks for, and asks for that score
    exactly if it is deep and not at that depth; otherwise it has no answer and changes nothing. So
    the shallow detections can be left out, and the others are answered as before. -/
theorem watch_asks_once_per_run_of_depths (history : List Prompt) :
    (after t history).lastDepth = lastDeep? t history ∧
      (∀ depth score, (after t history).respond t (.detect depth score) =
        if t.phaseCheckDepth ≤ depth ∧ lastDeep? t history ≠ some depth then
          (⟨some (Phase.ofScore score depth t), 1⟩, ⟨some depth⟩)
        else (⟨none, 0⟩, after t history)) ∧
      fresh.answers t (history.filter fun r => !r.isShallow t) =
        ((history.zip (fresh.answers t history)).filter fun x => !x.1.isShallow t).map (·.2) := by
  refine ⟨lastDepth_after t history, fun depth score => ?_, answers_deep t fresh history⟩
  rw [respond_detect, lastDepth_after]

/-- A shallow detection, two at one depth, one deeper, and one at the former depth again. -/
example :
    fresh.answers {} [.detect 4 (-500), .detect 6 (-500), .detect 6 0, .detect 7 10, .detect 6 900] =
      [⟨none, 0⟩, ⟨some .endgame, 1⟩, ⟨none, 0⟩, ⟨some .middlegame, 1⟩, ⟨some .sacrifice, 1⟩] := by decide

end PhaseWatch

end ChessEval
