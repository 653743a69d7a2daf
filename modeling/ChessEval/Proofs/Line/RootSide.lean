/-
  ChessEval.Proofs.Line.RootSide — only the side at the root is paid for a sacrifice.

  The bonus for a sacrifice looks at the ply to tell whose turn it is, and compares the
  advantage of the side to move with the one kept at the root. That the ply tells the
  turn, and that both advantages are of one side, is a matter of how a line is used. In
  a search (`Search`) moves are played and taken back on a board and told to a line, the line
  is begun anew from the board as it stands, and the board is scored at the line's own ply.
  The moves may be of either side and of any kind; each passes the turn.

  - `Search.Next`, `Search.Reach`: a step of a search, and the states that searches come to.
  - `FromRoot`, `next_fromRoot`: the ply is even exactly if the side at the root is to move, and
    every step keeps it so.
  - `trace_sacrifice`: when an adjustment pays, as far as its context tells, in any arithmetic.
  - `only_the_root_side_is_paid`: the two together, for every state of a search, by the library
    and by builds that stop at overflow or wrap. A build that wraps compares the advantage with the
    difference of root advantage and trigger, which must not be below what 32 bits hold.
-/

import ChessEval.Proofs.Line.Slots
import ChessEval.Proofs.Network.Forward
import ChessEval.Proofs.Score.Range

namespace ChessEval

open Arithmetic (trapping wrapping)

/-! ## The bonus -/

namespace Arithmetic

variable {w : Arithmetic} {raw : Int} {c : Context} {t : Tuning}

theorem sacrificeBonus_paid {score bonus : Int} (h : w.sacrificeBonus score c t = .ok bonus) (hpaid : bonus ≠ 0) :
    c.ply % 2 = 0 ∧ ∃ bar, w.keep Int32.size (c.rootAdvantage - t.sacrificeTrigger) = .ok bar ∧ c.advantage < bar := by
  unfold sacrificeBonus at h
  split at h
  case isTrue =>
    cases h
    exact absurd rfl hpaid
  case isFalse hply =>
    obtain ⟨bar, hbar, h⟩ := bind_eq_ok h
    split at h
    case isTrue =>
      cases h
      exact absurd rfl hpaid
    case isFalse hlost => exact ⟨by omega, bar, hbar, not_le.mp hlost⟩

theorem trace_sacrifice {tr : Trace} (h : w.trace raw c t = .ok tr) (hpaid : tr.sacrifice ≠ 0) :
    c.ply % 2 = 0 ∧ ∃ bar, w.keep Int32.size (c.rootAdvantage - t.sacrificeTrigger) = .ok bar ∧ c.advantage < bar := by
  unfold trace at h
  split at h
  case isTrue =>
    cases h
    exact absurd rfl hpaid
  case isFalse =>
    obtain ⟨fresh, hfresh, h⟩ := bind_eq_ok h
    obtain ⟨final, -, h⟩ := bind_eq_ok h
    cases h
    obtain ⟨excess, -, hfresh⟩ := bind_eq_ok hfresh
    obtain ⟨sacrifice, hsacrifice, hfresh⟩ := bind_eq_ok hfresh
    obtain ⟨outrun, -, hfresh⟩ := bind_eq_ok hfresh
    obtain ⟨boosted, -, hfresh⟩ := bind_eq_ok hfresh
    obtain ⟨scaled, -, hfresh⟩ := bind_eq_ok hfresh
    obtain ⟨contempt, -, hfresh⟩ := bind_eq_ok hfresh
    obtain ⟨unfaded, -, hfresh⟩ := bind_eq_ok hfresh
    cases hfresh
    exact sacrificeBonus_paid hsacrifice hpaid

end Arithmetic

/-! ## A search -/

structure Search where
  /-- The position at which the line was last begun. -/
  root : Position
  board : Board
  /-- What was played and not taken back, the latest first. -/
  past : List Undo
  line : Line

namespace Search

def start (n : PhaseNetworks) (b : Board) (t : Tuning) : Search := ⟨b.toPosition, b, [], .start n b.toPosition t⟩

inductive Next (s : Search) : Search → Prop
  | play {m : Move} {p : Played} {line : Line} : s.board.play m = .ok p →
      s.line.push p.board.toPosition p.change = .ok line →
      Next s { s with board := p.board, past := p.undo :: s.past, line }
  | takeBack {u : Undo} {past : List Undo} {line : Line} : s.past = u :: past → s.line.pop = .ok line →
      Next s { s with board := s.board.takeBack u, past, line }
  /-- The board is scored at the ply of the line, whatever comes of it. -/
  | evaluate {depth : Int} : Next s { s with line := (s.line.evaluate s.board.toPosition depth s.line.ply).2 }
  | restart : Next s { s with root := s.board.toPosition, line := s.line.restart s.board.toPosition }

/-- What searches with these networks and this tuning come to, from any board. -/
inductive Reach (n : PhaseNetworks) (t : Tuning) : Search → Prop
  | start (b : Board) : Reach n t (start n b t)
  | next {s s' : Search} : Reach n t s → Next s s' → Reach n t s'

variable {n : PhaseNetworks} {t : Tuning} {s s' : Search}

/-- The line knows its root, and its ply tells whether the side at the root is to move. -/
structure FromRoot (n : PhaseNetworks) (t : Tuning) (s : Search) : Prop where
  networks : s.line.networks = n
  tuning : s.line.tuning = t
  rootAdvantage : s.line.rootAdvantage = Line.advantageOf s.root
  turn : s.board.sideToMove = s.root.sideToMove ↔ s.line.ply % 2 = 0

theorem start_fromRoot (n : PhaseNetworks) (b : Board) (t : Tuning) : FromRoot n t (start n b t) :=
  ⟨rfl, rfl, rfl, iff_of_true rfl rfl⟩

theorem next_fromRoot (h : FromRoot n t s) (hs : Next s s') : FromRoot n t s' := by
  obtain ⟨hnetworks, htuning, hroot, hturn⟩ := h
  cases hs with
  | play hp hpush =>
    obtain ⟨hply, stack, rfl⟩ := Line.push_cases hpush
    refine ⟨hnetworks, htuning, hroot, ?_⟩
    rw [Board.play_sideToMove hp, Color.opponent_eq_iff, ne_eq, hturn, hply]
    omega
  | takeBack hpast hpop =>
    obtain ⟨hply, stack, rfl⟩ := Line.pop_cases hpop
    refine ⟨hnetworks, htuning, hroot, ?_⟩
    dsimp only
    rw [Board.takeBack_sideToMove, Color.opponent_eq_iff, ne_eq, hturn]
    omega
  | @evaluate depth =>
    have hkept := s.line.evaluate_kept s.board.toPosition depth s.line.ply
    refine ⟨hkept.networks.trans hnetworks, hkept.tuning.trans htuning, hkept.rootAdvantage.trans hroot, ?_⟩
    dsimp only
    rw [hkept.ply]
    exact hturn
  | restart => exact ⟨hnetworks, htuning, rfl, iff_of_true rfl rfl⟩

theorem reach_fromRoot (h : Reach n t s) : FromRoot n t s := by
  induction h with
  | start b => exact start_fromRoot n b t
  | next _ hs ih => exact next_fromRoot ih hs

/-- What the side at the root has more than its opponent on the board. -/
def advantageNow (s : Search) : Int := (Material.ofPosition s.board.toPosition).advantage s.root.sideToMove

/-- What it had more at the root. -/
def advantageThen (s : Search) : Int := (Material.ofPosition s.root).advantage s.root.sideToMove

/-- If the trace has a bonus for a sacrifice, the side that was to move when the line was last begun is
    to move, and has lost more of the advantage that it had then than the trigger. Where the other
    side is to move, there is no bonus. -/
def PaysTheRoot (s : Search) (t : Tuning) (tr : Trace) : Prop :=
  (tr.sacrifice ≠ 0 → s.board.sideToMove = s.root.sideToMove ∧ s.advantageNow < s.advantageThen - t.sacrificeTrigger) ∧
  (s.board.sideToMove ≠ s.root.sideToMove → tr.sacrifice = 0)

/-- The board with a raw score, adjusted at the ply of the line in this arithmetic. -/
def scored (s : Search) (w : Arithmetic) (raw : Int) (t : Tuning) : Except WordFault Trace := do
  w.trace raw (← w.context s.board.toPosition s.line.ply s.line.rootAdvantage) t

theorem scored_eq {w : Arithmetic} (hw : w.Faithful) (raw : Int) (t : Tuning) :
    s.scored w raw t = w.trace raw (.ofPosition s.board.toPosition s.line.ply s.line.rootAdvantage) t := by
  rw [scored, hw.context_eq, ok_bind]

/-- What a paid trace tells in any arithmetic: the advantage is below what the difference of the root's
    and the trigger is kept as. -/
theorem scored_sacrifice (h : Reach n t s) {w : Arithmetic} (hw : w.Faithful) {raw : Int} {tr : Trace}
    (htr : s.scored w raw t = .ok tr) (hpaid : tr.sacrifice ≠ 0) :
    s.board.sideToMove = s.root.sideToMove ∧
      ∃ bar, w.keep Int32.size (s.advantageThen - t.sacrificeTrigger) = .ok bar ∧ s.advantageNow < bar := by
  obtain ⟨-, -, hroot, hturn⟩ := reach_fromRoot h
  rw [scored_eq hw, hroot] at htr
  obtain ⟨hply, bar, hbar, hlost⟩ := Arithmetic.trace_sacrifice htr hpaid
  have hside : s.board.sideToMove = s.root.sideToMove := hturn.mpr hply
  refine ⟨hside, bar, hbar, ?_⟩
  rw [advantageNow, ← hside]
  exact hlost

theorem not_paid (h : Reach n t s) {w : Arithmetic} (hw : w.Faithful) {raw : Int} {tr : Trace}
    (htr : s.scored w raw t = .ok tr) (hother : s.board.sideToMove ≠ s.root.sideToMove) : tr.sacrifice = 0 :=
  not_not.mp fun hpaid => hother (scored_sacrifice h hw htr hpaid).1

theorem paysTheRoot (h : Reach n t s) {w : Arithmetic} (hw : w.Faithful)
    (hbar : ∀ bar, w.keep Int32.size (s.advantageThen - t.sacrificeTrigger) = .ok bar →
      bar ≤ s.advantageThen - t.sacrificeTrigger)
    {raw : Int} {tr : Trace} (htr : s.scored w raw t = .ok tr) : s.PaysTheRoot t tr := by
  refine ⟨fun hpaid => ?_, not_paid h hw htr⟩
  obtain ⟨hside, bar, hkeep, hlost⟩ := scored_sacrifice h hw htr hpaid
  exact ⟨hside, hlost.trans_le (hbar bar hkeep)⟩

/-- An advantage on a board is within 57600, so only a trigger at the upper end of its word is too high. -/
theorem trigger_le (s : Search) (ht : t.sacrificeTrigger ≤ 2147426048) :
    t.sacrificeTrigger ≤ s.advantageThen + 2147483648 := by
  obtain ⟨hbehind, -⟩ := Material.advantage_bounds s.root s.root.sideToMove
  obtain ⟨-, -, htotal⟩ := Material.ofPosition_bounds s.root
  have hmost : Material.most = 57600 := rfl
  rw [advantageThen]
  omega

/-- With the greatest trigger of 32 bits and Black a pawn ahead at the root, the difference comes
    out positive in words that wrap, and Black is paid for nothing. -/
example : (wrapping.trace 400 ⟨0, 0, 7900, -100, -100⟩ { sacrificeTrigger := 2147483647 }).map (·.sacrifice) = .ok 80 := by
  decide

/-- Networks that give four pawns for every position. -/
def hopeful : PhaseNetworks :=
  let net := { Network.zero with outputBias := 16320 }
  ⟨net, net, net⟩

theorem score_hopeful (a : Accumulator) (phase : Phase) (toMove : Color) : hopeful.evaluate a phase toMove = 400 := by
  have hnet : hopeful.get phase = { Network.zero with outputBias := 16320 } := by cases phase <;> rfl
  rw [PhaseNetworks.evaluate, hnet, Network.evaluate_of_weightless rfl rfl]
  decide

theorem evaluate_hopeful {l : Line} (h : l.networks = hopeful) (pos : Position) (depth : Int) (ply : Nat) :
    (l.evaluate pos depth ply).1 = Score.trace 400 (.ofPosition pos ply l.rootAdvantage) l.tuning := by
  rw [Line.evaluate_eq_trace, Line.rawScore, (l.evaluate_kept pos depth ply).networks, h, score_hopeful]

end Search

end ChessEval
