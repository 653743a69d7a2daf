/-
  ChessEval.Proofs.Line.Walk — how an evaluator is called while a board is played on.

  A `Call` is what an evaluator sees: a position with the change that led to it, a move
  taken back, a position to score, a new root. A fault ends a run of calls (`runCalls`).

  A `Walk` is what a caller does: it plays moves, takes back the latest, has the board
  scored and starts anew, and makes one call for each. `Walk.next?` has no answer where
  the caller breaks its side: for a move that is refused or stays on its square, past
  the deepest ply, and with nothing to take back.

  - `next?_unwinds`: taking back always gives the board that the move was played on, so
    the boards of a walk (`Walk.boards`) grow and shrink at the end only.
  - `run?_length`: there are as many of them as moves pending, and the present one.
-/

import ChessEval.Line.Basic
import ChessEval.Proofs.Board.TakeBack

namespace ChessEval

/-! ## Calls -/

inductive Call where
  /-- The position that a move led to, and the change that the move reported. -/
  | push (pos : Position) (c : Change)
  | pop
  | evaluate (pos : Position) (depth : Int) (ply : Nat)
  | restart (pos : Position)
  deriving DecidableEq, Repr

/-- The answers to calls made in order, and the state they lead to. -/
def runCalls {σ : Type} (call : σ → Call → Except Fault (Option Trace × σ)) (s : σ) :
    List Call → Except Fault (List (Option Trace) × σ)
  | [] => .ok ([], s)
  | c :: cs =>
    match call s c with
    | .error f => .error f
    | .ok (answer, s) =>
      match runCalls call s cs with
      | .error f => .error f
      | .ok (answers, s) => .ok (answer :: answers, s)

theorem runCalls_cons {σ : Type} {call : σ → Call → Except Fault (Option Trace × σ)} {s s' s'' : σ} {c : Call}
    {cs : List Call} {answer : Option Trace} {answers : List (Option Trace)} (hc : call s c = .ok (answer, s'))
    (hcs : runCalls call s' cs = .ok (answers, s'')) : runCalls call s (c :: cs) = .ok (answer :: answers, s'') := by
  simp only [runCalls, hc, hcs]

theorem of_map_eq_ok {ε α β : Type} {f : α → β} {x : Except ε α} {y : β} (h : x.map f = .ok y) :
    ∃ a, x = .ok a ∧ f a = y := by
  cases x with
  | error e => cases h
  | ok a =>
    cases h
    exact ⟨a, rfl, rfl⟩

/-- A line's answer to a call; only a scoring answers with a trace. -/
def Line.call (l : Line) : Call → Except Fault (Option Trace × Line)
  | .push pos c => (l.push pos c).map (none, ·)
  | .pop => l.pop.map (none, ·)
  | .evaluate pos depth ply =>
    let (t, l) := l.evaluate pos depth ply
    t.map (some ·, l)
  | .restart pos => .ok (none, l.restart pos)

theorem Line.call_evaluate {l : Line} {pos : Position} {depth : Int} {ply : Nat} {tr : Trace}
    (h : (l.evaluate pos depth ply).1 = .ok tr) :
    l.call (.evaluate pos depth ply) = .ok (some tr, (l.evaluate pos depth ply).2) := by
  show (l.evaluate pos depth ply).1.map _ = _
  rw [h]
  rfl

/-! ## Walks -/

/-- What a caller does next. -/
inductive Step where
  | play (m : Move)
  | takeBack
  | evaluate (depth : Int) (ply : Nat)
  | restart
  deriving DecidableEq, Repr

/-- The moves made and not taken back since the last root, given how many there were. -/
def Step.pending (moves : Nat) : Step → Nat
  | .play _ => moves + 1
  | .takeBack => moves - 1
  | .evaluate .. => moves
  | .restart => 0

structure Walk where
  board : Board
  /-- Each move that can be taken back, with the board it was played on, the latest first. -/
  past : List (Board × Undo)
  deriving DecidableEq, Repr

namespace Walk

def start (b : Board) : Walk := ⟨b, []⟩

/-- The next step with the call it makes, if the caller may take it. -/
def next? (w : Walk) : Step → Option (Walk × Call)
  | .play m =>
    if m.origin = m.target ∨ maxPly ≤ w.past.length then none
    else match w.board.play m with
      | .ok p => some (⟨p.board, (w.board, p.undo) :: w.past⟩, .push p.board.toPosition p.change)
      | .error _ => none
  | .takeBack =>
    match w.past with
    | (_, u) :: past => some (⟨w.board.takeBack u, past⟩, .pop)
    | [] => none
  | .evaluate depth ply => some (w, .evaluate w.board.toPosition depth ply)
  | .restart => some (⟨w.board, []⟩, .restart w.board.toPosition)

/-- A whole walk with the calls it makes. -/
def run? (w : Walk) : List Step → Option (Walk × List Call)
  | [] => some (w, [])
  | s :: ss => do
    let (w, c) ← w.next? s
    let (w, cs) ← w.run? ss
    return (w, c :: cs)

/-- The boards that moves were played on since the last root, by ply. -/
def earlier (w : Walk) : List Board := (w.past.map (·.1)).reverse

/-- The boards since the last root, by ply. -/
def boards (w : Walk) : List Board := w.earlier ++ [w.board]

/-- Taking back, from `b` on, gives the boards that the moves were played on. -/
def Unwinds (b : Board) : List (Board × Undo) → Prop
  | [] => True
  | (before, u) :: past => b.takeBack u = before ∧ Unwinds before past

/-! ## What one step does -/

theorem next?_play {w w' : Walk} {m : Move} {c : Call} (h : w.next? (.play m) = some (w', c)) :
    ∃ p, w.board.play m = .ok p ∧ m.origin ≠ m.target ∧ w.past.length < maxPly ∧
      w' = ⟨p.board, (w.board, p.undo) :: w.past⟩ ∧ c = .push p.board.toPosition p.change := by
  simp only [next?] at h
  split at h
  · cases h
  · rename_i hguard
    obtain ⟨hne, hlt⟩ := not_or.mp hguard
    split at h
    · rename_i p hp
      cases h
      exact ⟨p, hp, hne, by omega, rfl, rfl⟩
    · cases h

theorem next?_takeBack {w w' : Walk} {c : Call} (h : w.next? .takeBack = some (w', c)) :
    ∃ before u past, w.past = (before, u) :: past ∧ w' = ⟨w.board.takeBack u, past⟩ ∧ c = .pop := by
  obtain ⟨b, past⟩ := w
  cases past with
  | nil => cases h
  | cons e past =>
    cases h
    exact ⟨e.1, e.2, past, rfl, rfl, rfl⟩

theorem next?_unwinds {w w' : Walk} {s : Step} {c : Call} (hw : Unwinds w.board w.past)
    (h : w.next? s = some (w', c)) : Unwinds w'.board w'.past := by
  cases s with
  | play m =>
    obtain ⟨p, hp, -, -, rfl, -⟩ := next?_play h
    exact ⟨Board.takeBack_play hp, hw⟩
  | takeBack =>
    obtain ⟨before, u, past, hpast, rfl, -⟩ := next?_takeBack h
    rw [hpast] at hw
    obtain ⟨hb, hrest⟩ := hw
    rw [hb]
    exact hrest
  | evaluate depth ply =>
    cases h
    exact hw
  | restart =>
    cases h
    trivial

theorem next?_length {w w' : Walk} {s : Step} {c : Call} (h : w.next? s = some (w', c)) :
    w'.past.length = s.pending w.past.length := by
  cases s with
  | play m =>
    obtain ⟨p, -, -, -, rfl, -⟩ := next?_play h
    rfl
  | takeBack =>
    obtain ⟨before, u, past, hpast, rfl, -⟩ := next?_takeBack h
    rw [hpast]
    rfl
  | evaluate depth ply =>
    cases h
    rfl
  | restart =>
    cases h
    rfl

theorem run?_cons {w w' : Walk} {s : Step} {ss : List Step} {calls : List Call}
    (h : w.run? (s :: ss) = some (w', calls)) :
    ∃ w₁ c cs, w.next? s = some (w₁, c) ∧ w₁.run? ss = some (w', cs) ∧ calls = c :: cs := by
  simp only [run?, bind, Option.bind_eq_some_iff] at h
  obtain ⟨⟨w₁, c⟩, h1, ⟨w₂, cs⟩, h2, h3⟩ := h
  cases h3
  exact ⟨w₁, c, cs, h1, h2, rfl⟩

theorem run?_length {w w' : Walk} {ss : List Step} {calls : List Call} (h : w.run? ss = some (w', calls)) :
    w'.past.length = ss.foldl Step.pending w.past.length := by
  induction ss generalizing w calls with
  | nil =>
    cases h
    rfl
  | cons s ss ih =>
    obtain ⟨w₁, c, cs, h1, h2, -⟩ := run?_cons h
    rw [ih h2, next?_length h1]
    rfl

end Walk

end ChessEval
