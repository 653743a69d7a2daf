/-
  ChessEval.Proofs.Line.Settled — scoring a position twice is scoring it once.

  To score a position a line may rebuild the slot at its cursor, ask for the phase, and
  rebuild the slot again for the phase detected. Then it is settled at that depth
  (`Settled`): the slot is of the phase in force, and the watch does not ask again, even if
  the score under the new network speaks for yet another phase. It does not matter what
  the stack held before.

  - `evaluate_settled`: an evaluation leaves the line settled at its depth.
  - `evaluate_of_settled`: a settled line is scored as it is and stays so.
  - `scoring_again_changes_nothing`: so the second of two equal calls gives the answer of the
    first and leaves the line as the first left it.
-/

import ChessEval.Proofs.Line.Course

namespace ChessEval

theorem PhaseWatch.isDue_detect (d : PhaseWatch) (depth : Int) (t : Tuning) (score : Int) :
    (Id.run (d.detect depth t score)).2.isDue depth t = false := by
  rw [run_detect]
  split
  · simp [isDue]
  · rename_i hdue
    exact Bool.eq_false_iff.mpr hdue

namespace Line

variable {l : Line} {depth : Int}

/-! ## What an evaluation settles -/

/-- The slot at the cursor is of the phase in force, and at this depth the watch does not ask. -/
structure Settled (l : Line) (depth : Int) : Prop where
  in_force : l.stack.current.phase = l.phase
  unasked : l.watch.isDue depth l.tuning = false

theorem sync_in_force (l : Line) (pos : Position) : (l.sync pos).stack.current.phase = (l.sync pos).phase := by
  unfold sync
  split
  · assumption
  · exact congrArg Slot.phase (PlyStack.replace_current _ _)

theorem detect_settled (h : l.stack.current.phase = l.phase) (pos : Position) (depth : Int) :
    (l.detect pos depth).Settled depth := by
  have hdue := l.watch.isDue_detect depth l.tuning (l.rawScore pos)
  rcases hasked : Id.run (l.watch.detect depth l.tuning (l.rawScore pos)) with ⟨_ | phase, watch⟩
  · rw [hasked] at hdue
    rw [detect_of_unasked hasked]
    exact ⟨h, hdue⟩
  · rw [hasked] at hdue
    by_cases hphase : phase = l.phase
    · subst hphase
      rw [detect_of_kept hasked]
      exact ⟨h, hdue⟩
    · rw [detect_of_switch hasked hphase]
      exact ⟨congrArg Slot.phase (PlyStack.replace_current _ _), hdue⟩

theorem evaluate_settled (l : Line) (pos : Position) (depth : Int) (ply : Nat) :
    (l.evaluate pos depth ply).2.Settled depth :=
  detect_settled (sync_in_force l pos) pos depth

theorem detect_of_not_due (h : l.watch.isDue depth l.tuning = false) (pos : Position) : l.detect pos depth = l := by
  have hunasked : Id.run (l.watch.detect depth l.tuning (l.rawScore pos)) = (none, l.watch) := by
    rw [PhaseWatch.run_detect, h]
    rfl
  exact detect_of_unasked hunasked

theorem evaluate_of_settled (h : l.Settled depth) (pos : Position) (ply : Nat) :
    l.evaluate pos depth ply = (Score.trace (l.rawScore pos) (.ofPosition pos ply l.rootAdvantage) l.tuning, l) := by
  have hsync : l.sync pos = l := if_pos h.in_force
  rw [evaluate, hsync, detect_of_not_due h.unasked]

/-- Whatever a line holds, the second of two equal evaluations has the answer of the first and
    leaves the whole line as the first left it. And no evaluation moves the cursor, changes the
    advantage at the root, or touches a slot other than the one at the cursor. -/
theorem scoring_again_changes_nothing (l : Line) (pos : Position) (depth : Int) (ply : Nat) :
    let l' := (l.evaluate pos depth ply).2
    l'.evaluate pos depth ply = ((l.evaluate pos depth ply).1, l') ∧
      l'.stack.top = l.stack.top ∧ l'.rootAdvantage = l.rootAdvantage ∧
      ∀ k ≠ l.ply, l'.stack.slots[k]? = l.stack.slots[k]? := by
  intro l'
  have hkept : Kept l l' := evaluate_kept l pos depth ply
  have hsettled : l'.Settled depth := evaluate_settled l pos depth ply
  exact ⟨evaluate_of_settled hsettled pos ply, hkept.top, hkept.rootAdvantage, hkept.others⟩

end Line

end ChessEval
