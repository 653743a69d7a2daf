/-
  ChessEval.Proofs.Line.Stackless — a line scores as an evaluator without a stack does.

  A `Stackless` evaluator keeps the phase in force, the last depth at which it asked for the
  phase, and the advantage at the root. Moves made and taken back are nothing to it: to
  score a position it builds the accumulator of the whole position, once to detect the
  phase, under the network in force, and once under the network of the phase detected.

  - `evaluate_refines`: a line whose slot at the cursor is built from the position, under
    whatever tag, gives the trace that the evaluator without a stack gives, and both are
    left with the same phase, depth and advantage.
  - `line_refines_stackless`: so every walk from every board has the same answers from both.
-/

import ChessEval.Proofs.Line.Slots

namespace ChessEval

structure Stackless where
  phase : Phase
  /-- The depth at which the phase was last asked for. -/
  lastDepth : Option Int
  rootAdvantage : Int
  deriving DecidableEq, Repr

namespace Stackless

def start (pos : Position) : Stackless := ⟨.initial, none, Line.advantageOf pos⟩

/-- The score that a phase's network gives the position. -/
def score (n : PhaseNetworks) (pos : Position) (phase : Phase) : Int :=
  (n.get phase).evaluate (.ofPosition (n.get phase) pos) pos.sideToMove

/-- Detects the phase anew, from the check depth on, unless the last time was at this depth. -/
def check (s : Stackless) (n : PhaseNetworks) (t : Tuning) (pos : Position) (depth : Int) : Stackless :=
  if t.phaseCheckDepth ≤ depth ∧ s.lastDepth ≠ some depth then
    { s with phase := Phase.ofScore (score n pos s.phase) depth t, lastDepth := some depth }
  else s

def evaluate (s : Stackless) (n : PhaseNetworks) (t : Tuning) (pos : Position) (depth : Int) (ply : Nat) :
    Except Fault Trace × Stackless :=
  let s := s.check n t pos depth
  (Score.trace (score n pos s.phase) (.ofPosition pos ply s.rootAdvantage) t, s)

def call (n : PhaseNetworks) (t : Tuning) (s : Stackless) : Call → Except Fault (Option Trace × Stackless)
  | .push .. => .ok (none, s)
  | .pop => .ok (none, s)
  | .evaluate pos depth ply =>
    let (tr, s) := s.evaluate n t pos depth ply
    tr.map (some ·, s)
  | .restart pos => .ok (none, start pos)

end Stackless

namespace Line

/-- What a line has besides its stack, networks and tuning. -/
def stackless (l : Line) : Stackless := ⟨l.phase, l.watch.lastDepth, l.rootAdvantage⟩

variable {l l' : Line} {pos : Position}

/-! ## One scoring -/

theorem rawScore_of_current (h : l.stack.current = PlyStack.slotOf l.networks pos l.phase) :
    l.rawScore pos = Stackless.score l.networks pos l.phase := by
  have hacc : l.accumulator = .ofPosition (l.networks.get l.phase) pos := by
    rw [accumulator, h]
    rfl
  rw [rawScore, hacc]
  rfl

theorem sync_stackless (l : Line) (pos : Position) : (l.sync pos).stackless = l.stackless := by
  rw [stackless, sync_phase, sync_watch, (sync_kept l pos).rootAdvantage]
  rfl

theorem detect_stackless (depth : Int) (h : l.stack.current = PlyStack.slotOf l.networks pos l.phase) :
    (l.detect pos depth).stackless = l.stackless.check l.networks l.tuning pos depth := by
  unfold detect Stackless.check
  rw [PhaseWatch.run_detect, rawScore_of_current h]
  by_cases hdue : l.tuning.phaseCheckDepth ≤ depth ∧ l.watch.lastDepth ≠ some depth
  · have hcheck : l.tuning.phaseCheckDepth ≤ depth ∧ l.stackless.lastDepth ≠ some depth := hdue
    rw [if_pos (PhaseWatch.isDue_iff.mpr hdue), if_pos hcheck]
    by_cases hsame : Phase.ofScore (Stackless.score l.networks pos l.phase) depth l.tuning = l.phase
    · simp only [if_pos hsame]
      show Stackless.mk l.phase _ _ = Stackless.mk (Phase.ofScore (Stackless.score l.networks pos l.phase) _ _) _ _
      rw [hsame]
      rfl
    · simp only [if_neg hsame]
      rfl
  · have hcheck : ¬ (l.tuning.phaseCheckDepth ≤ depth ∧ l.stackless.lastDepth ≠ some depth) := hdue
    rw [if_neg (mt PhaseWatch.isDue_iff.mp hdue), if_neg hcheck]

/-- A line scores as the evaluator without a stack does, if its slot at the cursor was built from
    the position by any of the networks. -/
theorem evaluate_refines (depth : Int) (ply : Nat) (h : l.stack.current.Built l.networks pos) :
    (l.evaluate pos depth ply).1 = (l.stackless.evaluate l.networks l.tuning pos depth ply).1 ∧
      (l.evaluate pos depth ply).2.stackless = (l.stackless.evaluate l.networks l.tuning pos depth ply).2 := by
  have hsync := sync_refreshed h
  have hcheck : ((l.sync pos).detect pos depth).stackless = l.stackless.check l.networks l.tuning pos depth := by
    rw [detect_stackless depth hsync.in_force, sync_stackless, hsync.networks, hsync.tuning]
  refine ⟨?_, hcheck⟩
  have hr : Refreshed pos l (l.evaluate pos depth ply).2 := evaluate_refreshed depth ply h
  rw [evaluate_eq_trace, rawScore_of_current hr.in_force, hr.networks, ← hr.rootAdvantage, Stackless.evaluate, ← hcheck]
  rfl

/-! ## A whole walk -/

variable {n : PhaseNetworks} {t : Tuning} {w w' : Walk} {c : Call} {answer : Option Trace}

theorem push_stackless {c : Change} (h : l.push pos c = .ok l') : l'.stackless = l.stackless := by
  obtain ⟨-, stack, rfl⟩ := push_cases h
  rfl

theorem pop_stackless (h : l.pop = .ok l') : l'.stackless = l.stackless := by
  obtain ⟨-, stack, rfl⟩ := pop_cases h
  rfl

/-- An answered step of a walk has the same answer without a stack. -/
theorem call_refines {s : Step} (hl : Tracks n t w l) (h : w.next? s = some (w', c))
    (hc : l.call c = .ok (answer, l')) :
    Stackless.call n t l.stackless c = .ok (answer, l'.stackless) := by
  cases s with
  | play m =>
    obtain ⟨p, -, -, -, -, rfl⟩ := Walk.next?_play h
    obtain ⟨l₁, hpush, hmap⟩ := of_map_eq_ok hc
    cases hmap
    rw [push_stackless hpush]
    rfl
  | takeBack =>
    obtain ⟨before, u, past, -, -, rfl⟩ := Walk.next?_takeBack h
    obtain ⟨l₁, hpop, hmap⟩ := of_map_eq_ok hc
    cases hmap
    rw [pop_stackless hpop]
    rfl
  | evaluate depth ply =>
    cases h
    obtain ⟨htrace, hstate⟩ := evaluate_refines depth ply hl.built
    rw [hl.networks, hl.tuning] at htrace hstate
    obtain ⟨tr, htr, hmap⟩ := of_map_eq_ok hc
    cases hmap
    show (l.stackless.evaluate n t w.board.toPosition depth ply).1.map (some ·, _) =
      .ok (some tr, (l.evaluate w.board.toPosition depth ply).2.stackless)
    rw [hstate, ← htrace]
    exact congrArg (Except.map _) htr
  | restart =>
    cases h
    cases hc
    rfl

theorem run_refines {steps : List Step} {calls : List Call} (ht : t.NonzeroDivisors) (hl : Tracks n t w l)
    (hw : Walk.Unwinds w.board w.past) (h : w.run? steps = some (w', calls)) :
    ∃ answers l', runCalls call l calls = .ok (answers, l') ∧
      runCalls (Stackless.call n t) l.stackless calls = .ok (answers, l'.stackless) ∧ Tracks n t w' l' := by
  induction steps generalizing w l calls with
  | nil =>
    cases h
    exact ⟨[], l, rfl, rfl, hl⟩
  | cons s steps ih =>
    obtain ⟨w₁, c, cs, hs, hrest, rfl⟩ := Walk.run?_cons h
    obtain ⟨answer, l₁, hcall, htracks, -⟩ := call_tracks ht hl hw hs
    obtain ⟨answers, l', hcalls, hcalls', htracks'⟩ := ih htracks (Walk.next?_unwinds hw hs) hrest
    have hcall' := call_refines hl hs hcall
    exact ⟨answer :: answers, l', runCalls_cons hcall hcalls, runCalls_cons hcall' hcalls', htracks'⟩

/-- On every walk from every board, and so after each of its steps, the line has answered as the
    evaluator without a stack and has the same phase, depth and advantage. What it says of
    the board next depends on these three and the board alone, not on the way there. -/
theorem line_refines_stackless (n : PhaseNetworks) (t : Tuning) (b : Board) (steps : List Step) (w : Walk)
    (calls : List Call) (ht : t.NonzeroDivisors) (h : (Walk.start b).run? steps = some (w, calls)) :
    ∃ answers l, runCalls call (start n b.toPosition t) calls = .ok (answers, l) ∧
      runCalls (Stackless.call n t) (.start b.toPosition) calls = .ok (answers, l.stackless) ∧
      ∀ depth ply, (l.evaluate w.board.toPosition depth ply).1 =
        (l.stackless.evaluate n t w.board.toPosition depth ply).1 := by
  obtain ⟨answers, l, hcalls, hcalls', htracks⟩ := run_refines ht (start_tracks n b t) trivial h
  refine ⟨answers, l, hcalls, hcalls', fun depth ply => ?_⟩
  rw [(evaluate_refines depth ply htracks.built).1, htracks.networks, htracks.tuning]

/-- With a margin below zero the first check takes the line to the sacrifice network, and the
    restart takes it back. -/
theorem line_refines_stackless_over_a_switch :
    let t : Tuning := { sacrificeMargin := -1 }
    let e4 : Move := ⟨.ofCoords 1 4, .ofCoords 3 4, none⟩
    let e5 : Move := ⟨.ofCoords 6 4, .ofCoords 4 4, none⟩
    let steps : List Step := [.play e4, .evaluate 6 1, .play e5, .takeBack, .evaluate 6 1, .restart, .evaluate 6 0]
    t.NonzeroDivisors ∧ ∃ w calls, (Walk.start .start).run? steps = some (w, calls) ∧
      ∃ answers l, runCalls call (start .zero Board.start.toPosition t) calls = .ok (answers, l) ∧
        runCalls (Stackless.call .zero t) (.start Board.start.toPosition) calls = .ok (answers, l.stackless) ∧
        ∀ depth ply, (l.evaluate w.board.toPosition depth ply).1 =
          (l.stackless.evaluate .zero t w.board.toPosition depth ply).1 := by
  intro t e4 e5 steps
  have ht : t.NonzeroDivisors := ⟨by decide, by decide, by decide⟩
  have hsome : ((Walk.start .start).run? steps).isSome := by decide
  obtain ⟨⟨w, calls⟩, h⟩ := Option.isSome_iff_exists.mp hsome
  exact ⟨ht, w, calls, h, line_refines_stackless .zero t .start steps w calls ht h⟩

end Line

end ChessEval
