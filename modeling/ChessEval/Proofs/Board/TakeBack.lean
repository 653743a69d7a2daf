/-
  ChessEval.Proofs.Board.TakeBack — taking back restores the board.

  - `takeBack_play`: taking back an accepted move gives the board it was played on, in
    every field, whatever the move: no legality is needed.
  - `rewind_along`: after a list of moves, those refused being left out, the undos taken
    from the last to the first pass through every board of the line in reverse.

  The pieces are compared square by square. What makes the order of the writes harmless
  is that the piece taken does not stand on the origin unless that is also the target, and
  that the target is empty once that piece is gone.
-/

import ChessEval.Proofs.Board.Playing

namespace ChessEval

namespace Board

/-! ## One move -/

section Cells

variable {cells : Placement} {mover placed : Piece} {o t : Square}

theorem restore_quiet (ho : cells.get o = some mover) (ht : cells.get t = none) :
    ((((cells.set o none).set t (some placed)).set t none).set o (some mover)) = cells := by
  ext1 s
  simp only [Placement.get_set]
  by_cases h1 : o = s
  · subst h1
    simp [ho]
  · by_cases h2 : t = s
    · subst h2
      simp [h1, ht]
    · simp [h1, h2]

theorem restore_capture {v : PlacedPiece} (ho : cells.get o = some mover) (hv : cells.get v.square = some v.piece)
    (ht : v.square = t ∨ cells.get t = none) :
    (((((cells.set v.square none).set o none).set t (some placed)).set t none).set o (some mover)).set v.square
      (some v.piece) = cells := by
  ext1 s
  simp only [Placement.get_set]
  by_cases h0 : v.square = s
  · subst h0
    simp [hv]
  · by_cases h1 : o = s
    · subst h1
      simp [h0, ho]
    · by_cases h2 : t = s
      · subst h2
        have ht := ht.resolve_left h0
        simp [h0, h1, ht]
      · simp [h0, h1, h2]

theorem restore_castling {r : RookMove} {rook : Piece} (ho : cells.get o = some mover) (ht : cells.get t = none)
    (hr : cells.get r.origin = some rook) (hf : cells.get r.target = none) (hro : r.target ≠ o) (hrt : r.target ≠ t) :
    let after := (((cells.set o none).set t (some placed)).set r.origin none).set r.target (some rook)
    let back := (after.set t none).set o (some mover)
    (back.set r.target none).set r.origin (back.get r.target) = cells := by
  intro after back
  have hrook : back.get r.target = some rook := by
    simp [back, after, Placement.get_set, hro.symm, hrt.symm]
  rw [hrook]
  ext1 s
  simp only [back, after, Placement.get_set]
  by_cases h0 : r.origin = s
  · subst h0
    simp [hr]
  · by_cases h3 : r.target = s
    · subst h3
      simp [h0, hf]
    · by_cases h1 : o = s
      · subst h1
        simp [h0, h3, ho]
      · by_cases h2 : t = s
        · subst h2
          simp [h0, h1, h3, ht]
        · simp [h0, h1, h2, h3]

end Cells

variable {b : Board} {m : Move} {mover : Piece}

theorem placement_takeBack_carryOut (hm : b.pieceOn m.origin = some mover) :
    let p := b.carryOut mover (b.captured? mover m) m
    (p.board.takeBack p.undo).placement = b.placement := by
  intro p
  cases hc : b.captured? mover m with
  | some v =>
    obtain ⟨hv, htarget⟩ := captured?_eq_some hc
    simp only [p, hc, carryOut_eq, castlingRook?_of_capture, takeBack_eq, undoOf, rookCells_none]
    exact restore_capture hm hv (htarget.imp id And.left)
  | none =>
    have htarget := captured?_eq_none hc
    cases hr : castlingRook? (moveCells b.placement mover none m) mover none m with
    | none =>
      simp only [p, hc, carryOut_eq, hr, takeBack_eq, undoOf, rookCells_none]
      exact restore_quiet hm htarget
    | some r =>
      obtain ⟨-, hfrom, hto, w, hw, rfl⟩ := castlingRook?_eq_some hr
      obtain ⟨-, h1, h2, h3, h4⟩ := rookMove_apart hw
      simp only [moveCells_eq, Placement.get_set, h1.symm, h2.symm, h3.symm, h4.symm, if_false] at hfrom hto
      simp only [p, hc, carryOut_eq, hr, takeBack_eq, undoOf, rookCells_some]
      exact restore_castling hm htarget hfrom hto h3 h4

/-- Taking back an accepted move gives the board it was played on. -/
theorem takeBack_play {p : Played} (h : b.play m = .ok p) : p.board.takeBack p.undo = b := by
  obtain ⟨mover, hm, -, rfl⟩ := play_eq_ok_iff.mp h
  have hcells := placement_takeBack_carryOut hm
  obtain ⟨⟨cells, side, clock⟩, enPassant, castling, number⟩ := b
  simp only [takeBack, carryOut_eq, undone, undoOf, pass, Color.opponent_opponent] at hcells ⊢
  rw [hcells]

/-! ## A line of moves -/

/-- The moves of a list that are accepted when played one after the other, each with its outcome. -/
def along (b : Board) : List Move → List Played
  | [] => []
  | m :: ms =>
    match b.play m with
    | .ok p => p :: p.board.along ms
    | .error _ => b.along ms

/-- The board after a move, the same board if the move is refused. -/
def playOn (b : Board) (m : Move) : Board :=
  match b.play m with
  | .ok p => p.board
  | .error _ => b

/-- The boards of a line: the first, and the one after each accepted move. -/
def boardsAlong (b : Board) (ms : List Move) : List Board := b :: (b.along ms).map (·.board)

theorem boardsAlong_of_ok {p : Played} (h : b.play m = .ok p) (ms : List Move) :
    b.boardsAlong (m :: ms) = b :: p.board.boardsAlong ms := by
  simp only [boardsAlong, along, h, List.map_cons]

theorem boardsAlong_of_error {e : MoveError} (h : b.play m = .error e) (ms : List Move) :
    b.boardsAlong (m :: ms) = b.boardsAlong ms := by
  simp only [boardsAlong, along, h]

/-- Every move of a list meets `ok` on the board that it is played on. -/
def Throughout (ok : Board → Move → Prop) (b : Board) : List Move → Prop
  | [] => True
  | m :: ms => ok b m ∧ (b.playOn m).Throughout ok ms

theorem throughout_of_forall {ok : Board → Move → Prop} (h : ∀ b m, ok b m) (b : Board) (ms : List Move) :
    b.Throughout ok ms := by
  induction ms generalizing b with
  | nil => trivial
  | cons m ms ih => exact ⟨h b m, ih _⟩

/-- What every accepted move keeps that meets `ok`, a line of such moves keeps. -/
theorem forall_boardsAlong {ok : Board → Move → Prop} {P : Board → Prop}
    (hstep : ∀ {b m p}, ok b m → P b → b.play m = .ok p → P p.board) {b : Board} {ms : List Move}
    (hms : b.Throughout ok ms) (hb : P b) : ∀ b' ∈ b.boardsAlong ms, P b' := by
  induction ms generalizing b with
  | nil => exact List.forall_mem_singleton.mpr hb
  | cons m ms ih =>
    obtain ⟨hm, hms⟩ := hms
    unfold playOn at hms
    cases hp : b.play m with
    | error e =>
      rw [hp] at hms
      rw [boardsAlong_of_error hp]
      exact ih hms hb
    | ok p =>
      rw [hp] at hms
      rw [boardsAlong_of_ok hp]
      exact List.forall_mem_cons.mpr ⟨hb, ih hms (hstep hm hb hp)⟩

/-- The last board of a line, then those passed in taking back, one undo after the other. -/
def rewind (b : Board) (undos : List Undo) : List Board := undos.scanl takeBack b

theorem rewind_append (b : Board) (us : List Undo) (u : Undo) :
    b.rewind (us ++ [u]) = b.rewind us ++ [(us.foldl takeBack b).takeBack u] := by
  induction us generalizing b with
  | nil => simp [rewind]
  | cons v us ih => simpa [rewind] using ih (b.takeBack v)

/-- Taking back all moves of a line leads to the board it began on. -/
theorem foldl_takeBack_along (b : Board) (ms : List Move) :
    ((b.along ms).map (·.undo)).reverse.foldl takeBack (ms.foldl playOn b) = b := by
  induction ms generalizing b with
  | nil => rfl
  | cons m ms ih =>
    simp only [along, List.foldl_cons, playOn]
    cases hp : b.play m with
    | error e => exact ih b
    | ok p =>
      simp only [List.map_cons, List.reverse_cons, List.foldl_append, List.foldl_cons, List.foldl_nil, ih p.board]
      exact takeBack_play hp

/-- Taking the moves of a line back, the last one first, passes through its boards in
    reverse, each equal in every field to the board that stood there. -/
theorem rewind_along (b : Board) (ms : List Move) :
    (ms.foldl playOn b).rewind ((b.along ms).map (·.undo)).reverse = (b :: (b.along ms).map (·.board)).reverse := by
  induction ms generalizing b with
  | nil => rfl
  | cons m ms ih =>
    simp only [along, List.foldl_cons, playOn]
    cases hp : b.play m with
    | error e => exact ih b
    | ok p =>
      simp only [List.map_cons, List.reverse_cons, rewind_append, ih p.board, foldl_takeBack_along, takeBack_play hp]

end Board

end ChessEval
