/-
  ChessEval.Proofs.Board.Playing — what an accepted move takes and how it castles.

  The parts of a move are those of `Access` with the pieces at hand, where reading and writing
  are plain. Of each the first thing shown is what it then comes to (`captureSquare?_eq`,
  `castlingRook?_eq`, `carryOut_eq`, `play_eq`), and the rest goes by these equations.

  - `play_eq_ok_iff`: a move is played exactly when a piece stands on its origin and the
    piece it takes, if any, is no king; what then happens is `carryOut`.
  - `play_sideToMove`: the turn passes, and taking back passes it again.
  - `captured?_eq_some`: the piece taken stands on the target, or else behind an empty
    target, off the mover's file and so not on the origin.
  - `captured?_eq_none`: a move that takes nothing goes to an empty target.
  - `castlingRook?_eq_some`: a castling rook moves only with a king that takes nothing,
    from the corner to a free square beside the king's home; the king's two squares and
    the rook's two are four (`rookMove_apart`).
-/

import ChessEval.Board.Play

namespace ChessEval

namespace Square

theorem shift?_eq_some_iff {s t : Square} {d : Int} : s.shift? d = some t ↔ (t.index : Int) = s.index + d := by
  unfold shift?
  constructor
  · intro h
    split at h
    · rename_i hb
      injection h with h
      subst h
      exact Int.toNat_of_nonneg hb.1
    · cases h
  · intro h
    rw [dif_pos (by omega)]
    apply congrArg some
    apply Square.ext
    simp only
    omega

theorem file_shift? {s t : Square} {c : Color} (h : s.shift? (-c.forward) = some t) :
    t.file = s.file ∧ t ≠ s := by
  have hi := shift?_eq_some_iff.mp h
  have hd : (c.forward : Int) = 8 ∨ (c.forward : Int) = -8 := by cases c <;> simp [Color.forward]
  constructor
  · apply Fin.ext
    simp only [file]
    omega
  · rintro rfl
    omega

theorem number_eq_iff {s t : Square} : SquareName.number s = t.index ↔ s = t := ⟨Square.ext, congrArg _⟩

end Square

theorem CastlingRights.touch_eq (r : CastlingRights) (s : Square) :
    r.touch s = .ofFn fun c w => r.has c w && s ≠ c.kingHome && s ≠ c.rookHome w := by
  simp only [touch, ne_eq, Square.number_eq_iff]

namespace Board

/-- The empty board with the given pieces put on it. -/
def ofPieces (ps : List PlacedPiece) : Board := ps.foldl (fun b p => b.put p.square p.piece) empty

/-! ## The parts of a move -/

section

open Placement (access)

variable (b : Board) (cells : Placement) (mover : Piece) (captured : Option PlacedPiece) (m : Move)

def captureSquare? : Option Square := Id.run (access.captureSquare? b.placement b.enPassant mover m)

def captured? : Option PlacedPiece := Id.run (access.captured? b.placement b.enPassant mover m)

def castlingRook? : Option RookMove := Id.run (access.castlingRook? cells mover captured m)

def moveCells : Placement := Id.run (access.moveCells cells mover captured m)

def rookCells (rook : Option RookMove) : Placement := Id.run (access.rookCells cells mover rook)

/-- The outcome of a move that is not refused. -/
def carryOut : Played := b.played m (Id.run (access.carryOut b.placement mover captured m))

/-- The wing on which a king's move is castling, as far as the squares tell. -/
def castlingWing? : Option Wing :=
  if mover.kind = .king ∧ m.origin = mover.color.kingHome ∧ m.target.rank = mover.color.backRank then
    match m.target.file with
    | 6 => some .king
    | 2 => some .queen
    | _ => none
  else none

/-- Where the rook goes when `c` castles on wing `w`. -/
def rookMove (c : Color) (w : Wing) : RookMove := ⟨c.rookHome w, c.rookCastled w⟩

theorem access_read (s : Square) : access.read b.placement s = pure (b.pieceOn s) := rfl

theorem access_captured? : access.captured? b.placement b.enPassant mover m = pure (b.captured? mover m) := rfl

theorem captureSquare?_eq :
    b.captureSquare? mover m =
      if mover.kind = .pawn ∧ b.enPassant = some m.target ∧ m.origin.file ≠ m.target.file ∧ b.pieceOn m.target = none then
        m.target.shift? (-mover.color.forward)
      else some m.target := by
  have hfile : (m.origin.file : Nat) ≠ m.target.file ↔ m.origin.file ≠ m.target.file := not_congr Fin.val_inj
  show (if mover.kind = .pawn ∧ b.enPassant = some m.target ∧ (m.origin.file : Nat) ≠ m.target.file then
    if (b.pieceOn m.target).isNone then m.target.shift? (-mover.color.forward) else some m.target else some m.target) = _
  simp only [hfile]
  cases b.pieceOn m.target <;> simp

theorem captured?_eq : b.captured? mover m = (b.captureSquare? mover m).bind fun s => (b.pieceOn s).map (⟨·, s⟩) := by
  have hsquare : access.captureSquare? b.placement b.enPassant mover m = pure (b.captureSquare? mover m) := rfl
  rw [captured?, Access.captured?, hsquare, pure_bind]
  cases b.captureSquare? mover m <;> rfl

theorem rookSquares?_eq :
    Access.rookSquares? mover m.origin m.target = (castlingWing? mover m).map (rookMove mover.color) := by
  unfold castlingWing?
  split
  case isTrue h =>
    obtain ⟨hking, horigin, hrank⟩ := h
    rw [horigin, ← Square.ofCoords_rank_file m.target, hrank, Square.file_ofCoords]
    obtain ⟨c, k⟩ := mover
    cases hking
    generalize m.target.file = f
    revert f
    cases c <;> decide
  case isFalse h =>
    refine if_neg fun h' => h ?_
    obtain ⟨hking, horigin, htarget, hfile, -⟩ := h'
    refine ⟨hking, ?_, Fin.ext htarget⟩
    rw [← Square.ofCoords_rank_file m.origin, Fin.ext horigin, show m.origin.file = 4 from Fin.ext hfile]
    rfl

theorem castlingRook?_eq :
    castlingRook? cells mover captured m = (castlingWing? mover m).bind fun w =>
      let r := rookMove mover.color w
      if captured = none ∧ cells.get r.origin = some ⟨mover.color, .rook⟩ ∧ cells.get r.target = none then some r
      else none := by
  unfold castlingRook? Access.castlingRook?
  rw [rookSquares?_eq]
  cases captured with
  | some v => cases castlingWing? mover m <;> rfl
  | none =>
    cases castlingWing? mover m with
    | none => rfl
    | some w =>
      let r := rookMove mover.color w
      show (if cells.get r.origin = some ⟨mover.color, .rook⟩ then
        if (cells.get r.target).isNone then some r else none else none) = _
      cases htarget : cells.get r.target <;> simp [r, htarget]

theorem moveCells_eq :
    moveCells cells mover captured m =
      ((match captured with
        | some v => cells.set v.square none
        | none => cells).set m.origin none).set m.target (some { mover with kind := m.promotion.getD mover.kind }) := by
  cases captured <;> rfl

theorem rookCells_none : rookCells cells mover none = cells := rfl

theorem rookCells_some (r : RookMove) :
    rookCells cells mover (some r) = (cells.set r.origin none).set r.target (some ⟨mover.color, .rook⟩) := rfl

theorem enPassantAfter_eq :
    enPassantAfter mover m =
      if mover.kind = .pawn ∧ ((m.origin.index : Int) - m.target.index).natAbs = 16 then
        m.origin.shift? mover.color.forward
      else none := rfl

theorem carryOut_eq :
    let moved := moveCells b.placement mover captured m
    let rook := castlingRook? moved mover captured m
    b.carryOut mover captured m =
      { board := { b.pass mover captured m with placement := rookCells moved mover rook }
        change := changeOf mover captured rook m
        undo := b.undoOf mover captured rook m } := rfl

theorem play_eq :
    b.play m = match b.pieceOn m.origin with
      | none => .error (.emptyOrigin m.origin)
      | some mover =>
        match b.captured? mover m with
        | some ⟨⟨_, .king⟩, s⟩ => .error (.kingCapture s)
        | captured => .ok (b.carryOut mover captured m) := by
  rw [play, Access.play, access_read, pure_bind]
  cases b.pieceOn m.origin with
  | none => rfl
  | some mover =>
    simp only [access_captured?, pure_bind]
    cases b.captured? mover m with
    | none => rfl
    | some v =>
      obtain ⟨⟨c, k⟩, s⟩ := v
      cases k <;> rfl

theorem takeBack_eq (u : Undo) :
    b.takeBack u = b.undone u (
      let cells := (b.placement.set u.move.target none).set u.move.origin (some u.moved)
      let cells := match u.captured with
        | some v => cells.set v.square (some v.piece)
        | none => cells
      match u.rook with
      | some r => (cells.set r.target none).set r.origin (cells.get r.target)
      | none => cells) := by
  obtain ⟨m, moved, captured, rook, -⟩ := u
  cases captured <;> cases rook <;> rfl

end

variable {b : Board} {m : Move} {mover : Piece}

/-! ## Acceptance -/

theorem play_eq_ok_iff {p : Played} :
    b.play m = .ok p ↔ ∃ mover, b.pieceOn m.origin = some mover ∧
      (∀ v, b.captured? mover m = some v → v.piece.kind ≠ .king) ∧ p = b.carryOut mover (b.captured? mover m) m := by
  rw [play_eq]
  cases ho : b.pieceOn m.origin with
  | none => simp
  | some mover =>
    simp only [Option.some.injEq, exists_eq_left']
    split
    · rename_i c s hc
      constructor
      · intro h
        cases h
      · rintro ⟨hk, -⟩
        exact absurd rfl (hk _ hc)
    · rename_i captured hn
      constructor
      · intro h
        injection h with h
        refine ⟨fun v hv hk => ?_, h.symm⟩
        obtain ⟨⟨c, k⟩, s⟩ := v
        simp only at hk
        subst hk
        exact hn c s hv
      · rintro ⟨-, rfl⟩
        rfl

/-! ## The turn -/

theorem play_sideToMove {p : Played} (h : b.play m = .ok p) : p.board.sideToMove = b.sideToMove.opponent := by
  obtain ⟨mover, -, -, rfl⟩ := play_eq_ok_iff.mp h
  rfl

theorem takeBack_sideToMove (b : Board) (u : Undo) : (b.takeBack u).sideToMove = b.sideToMove.opponent := rfl

/-! ## What is taken -/

theorem captured?_eq_some {v : PlacedPiece} (h : b.captured? mover m = some v) :
    b.pieceOn v.square = some v.piece ∧
      (v.square = m.target ∨ b.pieceOn m.target = none ∧ v.square ≠ m.target ∧ v.square ≠ m.origin) := by
  rw [captured?_eq] at h
  obtain ⟨s, hs, hv⟩ := Option.bind_eq_some_iff.mp h
  obtain ⟨q, hq, rfl⟩ := Option.map_eq_some_iff.mp hv
  refine ⟨hq, ?_⟩
  rw [captureSquare?_eq] at hs
  split at hs
  · rename_i hep
    obtain ⟨-, -, hfile, hempty⟩ := hep
    obtain ⟨hf, hne⟩ := Square.file_shift? hs
    refine Or.inr ⟨hempty, hne, ?_⟩
    intro (e : s = m.origin)
    subst e
    exact hfile hf
  · injection hs with hs
    exact Or.inl hs.symm

theorem captured?_eq_none (h : b.captured? mover m = none) : b.pieceOn m.target = none := by
  rw [captured?_eq, captureSquare?_eq] at h
  split at h
  · rename_i hep
    exact hep.2.2.2
  · simpa using h

/-- A piece that stays on its square takes itself. -/
theorem captured?_self (h : m.origin = m.target) (hm : b.pieceOn m.origin = some mover) :
    b.captured? mover m = some ⟨mover, m.origin⟩ := by
  have hs : b.captureSquare? mover m = some m.target := by
    rw [captureSquare?_eq, if_neg]
    rintro ⟨-, -, hfile, -⟩
    exact hfile (by rw [h])
  rw [captured?_eq, hs, ← h]
  simp [hm]

/-! ## Castling -/

theorem castlingWing?_eq_some {w : Wing} (h : castlingWing? mover m = some w) :
    mover.kind = .king ∧ m.origin = mover.color.kingHome ∧ m.target = mover.color.kingCastled w := by
  unfold castlingWing? at h
  split at h
  · rename_i hk
    obtain ⟨hking, horigin, hrank⟩ := hk
    refine ⟨hking, horigin, ?_⟩
    rw [← Square.ofCoords_rank_file m.target, hrank]
    split at h
    · rename_i hf
      cases h
      rw [hf]
      rfl
    · rename_i hf
      cases h
      rw [hf]
      rfl
    · cases h
  · cases h

theorem castlingRook?_eq_some {cells : Placement} {captured : Option PlacedPiece} {r : RookMove}
    (h : castlingRook? cells mover captured m = some r) :
    captured = none ∧ cells.get r.origin = some ⟨mover.color, .rook⟩ ∧ cells.get r.target = none ∧
      ∃ w, castlingWing? mover m = some w ∧ r = rookMove mover.color w := by
  rw [castlingRook?_eq] at h
  obtain ⟨w, hw, hr⟩ := Option.bind_eq_some_iff.mp h
  simp only at hr
  split at hr
  · rename_i hc
    injection hr with hr
    subst hr
    exact ⟨hc.1, hc.2.1, hc.2.2, w, hw, rfl⟩
  · cases hr

/-- A king that takes something does not castle. -/
theorem castlingRook?_of_capture (cells : Placement) (mover : Piece) (v : PlacedPiece) (m : Move) :
    castlingRook? cells mover (some v) m = none := by
  cases hr : castlingRook? cells mover (some v) m with
  | none => rfl
  | some r => cases (castlingRook?_eq_some hr).1

/-- The king leaves and reaches neither of the rook's squares, and those are two. -/
theorem rookMove_apart {w : Wing} (h : castlingWing? mover m = some w) :
    let r := rookMove mover.color w
    r.origin ≠ r.target ∧ r.origin ≠ m.origin ∧ r.origin ≠ m.target ∧ r.target ≠ m.origin ∧ r.target ≠ m.target := by
  obtain ⟨-, horigin, htarget⟩ := castlingWing?_eq_some h
  rw [horigin, htarget]
  cases mover.color <;> cases w <;> decide

end Board

end ChessEval
