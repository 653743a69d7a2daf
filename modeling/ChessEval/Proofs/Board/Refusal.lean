/-
  ChessEval.Proofs.Board.Refusal — when a move is refused, and what is never lost.

  A move is refused for one of two reasons (`Refuses`): no piece stands on its origin, or a
  king stands on the square where it takes (`TakesOn`). That square is the one behind
  the target if a pawn changes file onto an empty en passant target, and the target
  otherwise. Behind a target at the edge there may be no square; nothing is taken then.

  - `play_eq_error_iff`: a move is refused exactly for these reasons, and says which.
  - `InPlace.run_play`: the program of a move (`Access`), run on a board that is changed square by
    square, comes to the same; a refused move has written nothing.
  - `kings_play`: a move that promotes pawns only, and none to a king, keeps the kings of
    each side: they are counted over the pieces that it reports as gone and as come.
  - `refused_for_cause_and_no_king_lost`: so the kings of a line of such moves stay as many.
-/

import ChessEval.Proofs.Board.Balance
import ChessEval.Proofs.Board.TakeBack

namespace ChessEval

/-- On the same file, one rank nearer to this side's own back rank. -/
def Color.IsBehind (c : Color) (s t : Square) : Prop :=
  s.file = t.file ∧ match c with
    | .white => s.rank.val + 1 = t.rank.val
    | .black => t.rank.val + 1 = s.rank.val

theorem Color.shift?_back_eq_some_iff {c : Color} {s t : Square} :
    t.shift? (-c.forward) = some s ↔ c.IsBehind s t := by
  rw [Square.shift?_eq_some_iff]
  cases c with
  | white => simp only [forward, IsBehind, Square.file, Square.rank, Fin.mk.injEq]; omega
  | black => simp only [forward, IsBehind, Square.file, Square.rank, Fin.mk.injEq]; omega

theorem Move.isPromotion_of_ofText {text : String} {m : Move} (h : Move.ofText text = .ok m) :
    ∀ k ∈ m.promotion, k.isPromotion := by
  unfold ofText at h
  simp only at h
  split at h
  · cases h
  · split at h
    · split at h
      · cases h
        intro k hk
        cases hk
      · split at h
        · rename_i k hk
          cases h
          intro k' hk'
          cases hk'
          exact (Option.filter_eq_some_iff.mp hk).2
        · cases h
    · cases h

namespace Board

variable {b : Board} {m : Move} {mover : Piece}

/-! ## Refusals -/

/-- The square whose piece the move takes. -/
def TakesOn (b : Board) (mover : Piece) (m : Move) (s : Square) : Prop :=
  if mover.kind = .pawn ∧ m.origin.file ≠ m.target.file ∧ b.enPassant = some m.target ∧ b.pieceOn m.target = none then
    mover.color.IsBehind s m.target
  else s = m.target

/-- Why a move is refused. -/
inductive Refuses (b : Board) (m : Move) : MoveError → Prop
  | emptyOrigin (h : b.pieceOn m.origin = none) : Refuses b m (.emptyOrigin m.origin)
  | kingCapture {mover : Piece} {s : Square} {c : Color} (hmover : b.pieceOn m.origin = some mover)
      (hs : b.TakesOn mover m s) (hking : b.pieceOn s = some ⟨c, .king⟩) : Refuses b m (.kingCapture s)

theorem captureSquare?_eq_some_iff {s : Square} : b.captureSquare? mover m = some s ↔ b.TakesOn mover m s := by
  rw [captureSquare?_eq]
  unfold TakesOn
  have hcond : (mover.kind = .pawn ∧ b.enPassant = some m.target ∧ m.origin.file ≠ m.target.file ∧
      b.pieceOn m.target = none) ↔ (mover.kind = .pawn ∧ m.origin.file ≠ m.target.file ∧
      b.enPassant = some m.target ∧ b.pieceOn m.target = none) := by
    rw [and_left_comm (a := b.enPassant = _)]
  rw [if_congr hcond rfl rfl]
  split
  · exact Color.shift?_back_eq_some_iff
  · rw [Option.some.injEq]
    exact eq_comm

theorem captured?_eq_some_iff {v : PlacedPiece} :
    b.captured? mover m = some v ↔ b.TakesOn mover m v.square ∧ b.pieceOn v.square = some v.piece := by
  rw [captured?_eq, Option.bind_eq_some_iff]
  constructor
  · intro ⟨s, hs, hv⟩
    obtain ⟨q, hq, rfl⟩ := Option.map_eq_some_iff.mp hv
    exact ⟨captureSquare?_eq_some_iff.mp hs, hq⟩
  · intro ⟨hs, hv⟩
    exact ⟨v.square, captureSquare?_eq_some_iff.mpr hs, Option.map_eq_some_iff.mpr ⟨v.piece, hv, rfl⟩⟩

/-- A move is refused for a cause, and every cause refuses it. -/
theorem play_eq_error_iff {e : MoveError} : b.play m = .error e ↔ b.Refuses m e := by
  rw [play_eq]
  cases ho : b.pieceOn m.origin with
  | none =>
    constructor
    · intro h
      cases h
      exact .emptyOrigin ho
    · intro h
      cases h with
      | emptyOrigin => rfl
      | kingCapture hmover => cases ho.symm.trans hmover
  | some mover =>
    simp only
    constructor
    · intro h
      split at h
      · rename_i c s hc
        cases h
        obtain ⟨hs, hking⟩ := captured?_eq_some_iff.mp hc
        exact .kingCapture ho hs hking
      · cases h
    · intro h
      cases h with
      | emptyOrigin hnone => cases ho.symm.trans hnone
      | @kingCapture mover' s c hmover hs hking =>
        cases ho.symm.trans hmover
        have hc : b.captured? mover m = some ⟨⟨c, .king⟩, s⟩ := captured?_eq_some_iff.mpr ⟨hs, hking⟩
        rw [hc]

/-! ## In place -/

/-- Work on a board in place, which may be refused. What was written before a refusal stays written. -/
abbrev InPlace := EStateM MoveError Board

namespace InPlace

def access : Access Square Unit InPlace where
  read _ s := return (← get).pieceOn s
  write _ s o := modify fun b => { b with placement := b.placement.set s o }

/-- Plays a move in place: the change and the undo, or why the move is refused. -/
def play (m : Move) : InPlace (Change × Undo) := do
  let b ← get
  match ← access.play () b.enPassant m with
  | .error e => throw e
  | .ok moved =>
    modify (·.pass moved.mover moved.captured m)
    return (changeOf moved.mover moved.captured moved.rook m, b.undoOf moved.mover moved.captured moved.rook m)

variable (b : Board) (mover : Piece) (captured : Option PlacedPiece) (m : Move)

theorem run_read (s : Square) : (access.read () s).run b = .ok (b.pieceOn s) b := rfl

theorem run_captureSquare? :
    (access.captureSquare? () b.enPassant mover m).run b = .ok (b.captureSquare? mover m) b := by
  unfold captureSquare? Access.captureSquare?
  split <;> rfl

theorem run_captured? : (access.captured? () b.enPassant mover m).run b = .ok (b.captured? mover m) b := by
  rw [Access.captured?, EStateM.run_bind, run_captureSquare?, captured?_eq]
  cases b.captureSquare? mover m <;> rfl

theorem run_castlingRook? :
    (access.castlingRook? () mover captured m).run b = .ok (castlingRook? b.placement mover captured m) b := by
  unfold castlingRook? Access.castlingRook?
  cases captured with
  | some v => rfl
  | none =>
    cases Access.rookSquares? mover m.origin m.target with
    | none => rfl
    | some r =>
      simp only [EStateM.run_bind, run_read, access_read, pure_bind]
      split <;> rfl

theorem run_moveCells :
    (access.moveCells () mover captured m).run b =
      .ok () { b with placement := moveCells b.placement mover captured m } := by
  cases captured <;> rfl

theorem run_rookCells (rook : Option RookMove) :
    (access.rookCells () mover rook).run b = .ok () { b with placement := rookCells b.placement mover rook } := by
  cases rook <;> rfl

/-- In place the pieces are moved as they are at hand. -/
theorem run_carryOut :
    (access.carryOut () mover captured m).run b =
      let d := Id.run (Placement.access.carryOut b.placement mover captured m)
      .ok { d with cells := () } { b with placement := d.cells } := by
  rw [Access.carryOut, EStateM.run_bind, run_moveCells]
  simp only [EStateM.run_bind, run_castlingRook?, run_rookCells]
  rfl

/-- Before a refusal nothing is written. -/
theorem run_access_play :
    (access.play () b.enPassant m).run b =
      match Id.run (Placement.access.play b.placement b.enPassant m) with
      | .ok d => .ok (.ok { d with cells := () }) { b with placement := d.cells }
      | .error e => .ok (.error e) b := by
  rw [Access.play, Access.play, EStateM.run_bind, run_read, access_read, pure_bind]
  cases b.pieceOn m.origin with
  | none => rfl
  | some mover =>
    simp only [EStateM.run_bind, run_captured?, access_captured?, pure_bind]
    cases b.captured? mover m with
    | none =>
      simp only [EStateM.run_bind, run_carryOut]
      rfl
    | some v =>
      obtain ⟨⟨c, k⟩, s⟩ := v
      cases k with
      | king => rfl
      | _ =>
        simp only [EStateM.run_bind, run_carryOut]
        rfl

theorem run_play :
    (play m).run b = match b.play m with
      | .ok p => .ok (p.change, p.undo) p.board
      | .error e => .error e b := by
  rw [play, EStateM.run_bind, EStateM.run_get]
  simp only [EStateM.run_bind, run_access_play, Board.play]
  cases Id.run (Placement.access.play b.placement b.enPassant m) <;> rfl

end InPlace

/-! ## Kings -/

/-- The number of a side's kings. -/
def kings (b : Board) (c : Color) : Nat := b.occupied.countP (·.piece = ⟨c, .king⟩)

/-- The move makes no piece a king, and of a king nothing else. -/
def SparesKings (b : Board) (m : Move) : Prop :=
  ∀ k ∈ m.promotion, k ≠ .king ∧ ∀ mover ∈ b.pieceOn m.origin, mover.kind ≠ .king

theorem arrival_isKing {c : Color} (hm : b.pieceOn m.origin = some mover) (h : b.SparesKings m) :
    (arrival mover m).piece = ⟨c, .king⟩ ↔ mover = ⟨c, .king⟩ := by
  obtain ⟨c', k⟩ := mover
  cases hp : m.promotion with
  | none => simp [arrival, hp]
  | some k' =>
    obtain ⟨hk', hk⟩ := h k' hp
    have hk := hk _ hm
    simp [arrival, hp, hk', hk]

/-- The kings that a move reports as gone are as many as those that it reports as come. -/
theorem countP_change {c : Color} {captured : Option PlacedPiece} (hm : b.pieceOn m.origin = some mover)
    (h : b.SparesKings m) (hv : ∀ v, captured = some v → v.piece.kind ≠ .king) :
    let change := (b.carryOut mover captured m).change
    change.removed.countP (·.piece = ⟨c, .king⟩) = change.added.countP (·.piece = ⟨c, .king⟩) := by
  let rook := castlingRook? (moveCells b.placement mover captured m) mover captured m
  have hmover : (arrival mover m).piece = ⟨c, .king⟩ ↔ mover = ⟨c, .king⟩ := arrival_isKing hm h
  have hcaptured : captured.toList.countP (·.piece = ⟨c, .king⟩) = 0 := by
    apply List.countP_eq_zero.mpr
    intro v hmem hking
    have hking : v.piece = ⟨c, .king⟩ := of_decide_eq_true hking
    exact hv v (Option.mem_toList.mp hmem) (congrArg Piece.kind hking)
  have hrook (s : RookMove → Square) :
      (rook.map fun r => (⟨⟨mover.color, .rook⟩, s r⟩ : PlacedPiece)).toList.countP (·.piece = ⟨c, .king⟩) = 0 := by
    cases rook <;> simp
  intro change
  have hchange : change = changeOf mover captured rook m := rfl
  show change.removed.countP _ = change.added.countP _
  rw [hchange]
  show (⟨mover, m.origin⟩ :: captured.toList ++ _).countP _ = (arrival mover m :: _).countP _
  rw [List.countP_append, List.countP_cons, List.countP_cons, hcaptured, hrook, hrook]
  simp only [hmover, Nat.add_zero]

theorem kings_play {p : Played} (h : b.SparesKings m) (hp : b.play m = .ok p) (c : Color) :
    p.board.kings c = b.kings c := by
  obtain ⟨mover, hm, hv, rfl⟩ := play_eq_ok_iff.mp hp
  by_cases he : m.origin = m.target
  · -- the report of a piece that stays is one removal too long: the pieces themselves are counted
    obtain ⟨-, hcells⟩ := carryOut_balance_self hm he
    have hcount := congrArg (Multiset.countP (·.piece = ⟨c, .king⟩)) hcells
    have hmover : (arrival mover m).piece = ⟨c, .king⟩ ↔ mover = ⟨c, .king⟩ := arrival_isKing hm h
    simp only [Multiset.countP_add, ← Multiset.coe_singleton, Multiset.coe_countP, List.countP_singleton, hmover] at hcount
    exact Nat.add_right_cancel hcount
  · have hbalance := carryOut_balance hm he
    have hchange := countP_change (c := c) hm h hv
    have hcount := congrArg (Multiset.countP (·.piece = ⟨c, .king⟩)) hbalance
    simp only [Multiset.countP_add, Multiset.coe_countP] at hcount
    rw [hchange] at hcount
    exact Nat.add_right_cancel hcount

/-! ## A line of moves -/

/-- The move can be read off a text, and only a pawn is asked to promote. -/
def Asked (b : Board) (m : Move) : Prop :=
  (∃ text, Move.ofText text = .ok m) ∧ (m.promotion.isSome → ∀ mover ∈ b.pieceOn m.origin, mover.kind = .pawn)

theorem Asked.sparesKings (h : b.Asked m) : b.SparesKings m := by
  obtain ⟨⟨text, htext⟩, hpawn⟩ := h
  intro k hk
  constructor
  · intro hking
    have hpromotes := Move.isPromotion_of_ofText htext k hk
    rw [hking] at hpromotes
    cases hpromotes
  · intro mover hmover hking
    have hpawn := hpawn (Option.isSome_of_mem hk) mover hmover
    rw [hking] at hpawn
    cases hpawn

/-- A move is refused exactly if its origin is empty or it would take a king, with the square
    in the error, and on a board that is changed in place a refused move changes nothing. And
    over any line of moves read off texts, those refused among them, each side keeps as many
    kings as it had, if only pawns are asked to promote. -/
theorem refused_for_cause_and_no_king_lost (b : Board) :
    (∀ m e, b.play m = .error e ↔ b.Refuses m e) ∧
    (∀ m, (InPlace.play m).run b = match b.play m with
      | .ok p => .ok (p.change, p.undo) p.board
      | .error e => .error e b) ∧
    ∀ ms, b.Throughout Asked ms → ∀ b' ∈ b.boardsAlong ms, ∀ c, b'.kings c = b.kings c := by
  refine ⟨fun m e => play_eq_error_iff, InPlace.run_play b, fun ms hms => ?_⟩
  apply forall_boardsAlong (P := fun b' => ∀ c, b'.kings c = b.kings c) ?_ hms (fun c => rfl)
  intro b₁ m p hm hb₁ hp c
  rw [kings_play hm.sparesKings hp, hb₁]

/-- White promotes on a8; then come an empty origin, the king's own square, the enemy's king
    and, at last, a capture by a king. -/
theorem refused_for_cause_and_no_king_lost_at_a8 :
    let b : Board :=
      ofPieces [⟨⟨.white, .king⟩, Color.white.kingHome⟩, ⟨⟨.black, .king⟩, Color.black.kingHome⟩,
        ⟨⟨.white, .pawn⟩, .ofCoords 6 0⟩]
    let a8 : Square := Color.black.rookHome .queen
    let ms : List Move :=
      [⟨.ofCoords 6 0, a8, some .queen⟩, ⟨.ofCoords 6 0, a8, some .queen⟩, ⟨Color.white.kingHome, Color.white.kingHome, none⟩,
       ⟨Color.white.kingHome, Color.black.kingHome, none⟩, ⟨Color.black.kingHome, a8, none⟩]
    b.Throughout Asked ms ∧ (b.along ms).map (·.undo.move.target) = [a8, a8] ∧
      ∀ b' ∈ b.boardsAlong ms, ∀ c, b'.kings c = b.kings c := by
  intro b a8 ms
  have hms : b.Throughout Asked ms := by
    refine ⟨⟨⟨"a7a8q", by decide⟩, ?_⟩, ⟨⟨"a7a8Q", by decide⟩, ?_⟩, ⟨⟨"e1e1", by decide⟩, ?_⟩, ⟨⟨"e1e8", by decide⟩, ?_⟩,
      ⟨⟨"e8a8", by decide⟩, ?_⟩, trivial⟩ <;> decide
  exact ⟨hms, by decide, (refused_for_cause_and_no_king_lost b).2.2 ms hms⟩

end Board

end ChessEval
