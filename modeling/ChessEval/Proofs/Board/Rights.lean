/-
  ChessEval.Proofs.Board.Rights — a right of castling that is held can be relied on.

  A board's rights are truthful (`RightsTruthful`) if the king and the rook of each right
  held stand on their home squares. A move clears the rights whose homes it leaves or
  reaches, but it can change other squares too: those of the castling rook, and that of
  a pawn taken en passant. The castling rook stands on the back rank of a king that has
  just left its home. The pawn taken en passant stands beyond the target, and for that
  the invariant has to say more (`PassedClear`): the squares before and beyond an en
  passant target are homes of no right held. It is so because they are the two squares of
  the double step that set the target, if that step went forward. A pawn that steps back
  two ranks leaves its target elsewhere, perhaps next to a rook's corner.

  - `pieceOn_carryOut_of_apart`: the squares that a move does not change.
  - `reliable_play`: one accepted move keeps the invariant.
  - `rights_stay_truthful`: so every board of a line has truthful rights, and no right
    comes back.
-/

import ChessEval.Proofs.Board.TakeBack

namespace ChessEval

/-! ## Homes -/

/-- The square is one that the right of castling is about: the king's or the rook's. -/
def Color.IsHome (c : Color) (w : Wing) (s : Square) : Prop := s = c.kingHome ∨ s = c.rookHome w

theorem Color.IsHome.rank_eq {c : Color} {w : Wing} {s : Square} (h : c.IsHome w s) : s.rank = c.backRank := by
  rcases h with rfl | rfl
  · exact Square.rank_ofCoords _ _
  · cases w <;> exact Square.rank_ofCoords _ _

theorem Color.backRank_inj {c c' : Color} (h : c.backRank = c'.backRank) : c = c' := by
  revert h
  cases c <;> cases c' <;> decide

theorem CastlingRights.has_touch {r : CastlingRights} {s : Square} {c : Color} {w : Wing} :
    (r.touch s).has c w ↔ r.has c w ∧ ¬ c.IsHome w s := by
  simp [touch_eq, Color.IsHome, and_assoc]

/-- The square lies nearer to the back rank of this side's enemy than the first one does. -/
def Color.Advances (c : Color) (s t : Square) : Prop :=
  match c with
  | .white => s.rank < t.rank
  | .black => t.rank < s.rank

instance (c : Color) (s t : Square) : Decidable (c.Advances s t) :=
  match c with
  | .white => inferInstanceAs (Decidable (s.rank < t.rank))
  | .black => inferInstanceAs (Decidable (t.rank < s.rank))

namespace Board

variable {b : Board} {m : Move} {mover : Piece} {captured : Option PlacedPiece}

/-! ## What a move changes -/

theorem pieceOn_carryOut_of_apart {s : Square} (ho : m.origin ≠ s) (ht : m.target ≠ s)
    (hv : ∀ v, captured = some v → v.square ≠ s)
    (hr : ∀ w, castlingWing? mover m = some w → mover.color.rookHome w ≠ s ∧ mover.color.rookCastled w ≠ s) :
    (b.carryOut mover captured m).board.pieceOn s = b.pieceOn s := by
  have hmoved : (moveCells b.placement mover captured m).get s = b.pieceOn s := by
    cases captured with
    | none => simp only [moveCells_eq, Placement.get_set, ho, ht, if_false]; rfl
    | some v => simp only [moveCells_eq, Placement.get_set, ho, ht, hv v rfl, if_false]; rfl
  show (rookCells _ mover (castlingRook? (moveCells b.placement mover captured m) mover captured m)).get s = _
  cases hrook : castlingRook? (moveCells b.placement mover captured m) mover captured m with
  | none => exact hmoved
  | some r =>
    obtain ⟨-, -, -, w, hw, rfl⟩ := castlingRook?_eq_some hrook
    obtain ⟨hfrom, hto⟩ := hr w hw
    simp only [rookCells_some, rookMove, Placement.get_set, hfrom, hto, if_false]
    exact hmoved

/-- What is taken off the target is taken en passant. -/
theorem captured?_off_target {v : PlacedPiece} (h : b.captured? mover m = some v) (hv : v.square ≠ m.target) :
    b.enPassant = some m.target ∧ m.target.shift? (-mover.color.forward) = some v.square := by
  rw [captured?_eq] at h
  obtain ⟨s, hs, hp⟩ := Option.bind_eq_some_iff.mp h
  obtain ⟨q, -, rfl⟩ := Option.map_eq_some_iff.mp hp
  rw [captureSquare?_eq] at hs
  split at hs
  · rename_i hep
    exact ⟨hep.2.1, hs⟩
  · injection hs with hs
    exact absurd hs.symm hv

theorem castling_carryOut {c : Color} {w : Wing} :
    (b.carryOut mover captured m).board.castling.has c w ↔
      b.castling.has c w ∧ ¬ c.IsHome w m.origin ∧ ¬ c.IsHome w m.target := by
  show ((b.castling.touch m.origin).touch m.target).has c w ↔ _
  rw [CastlingRights.has_touch, CastlingRights.has_touch, and_assoc]

/-! ## The invariant -/

/-- The king and the rook of every right held stand at home. -/
def RightsTruthful (b : Board) : Prop :=
  ∀ c w, b.castling.has c w → b.pieceOn c.kingHome = some ⟨c, .king⟩ ∧ b.pieceOn (c.rookHome w) = some ⟨c, .rook⟩

/-- The squares on which a pawn could be taken en passant are homes of no right held. -/
def PassedClear (b : Board) : Prop :=
  ∀ (t s : Square) (c : Color), b.enPassant = some t → t.shift? (-c.forward) = some s →
    ∀ c' w, b.castling.has c' w → ¬ c'.IsHome w s

structure Reliable (b : Board) : Prop where
  truthful : b.RightsTruthful
  clear : b.PassedClear

/-- If a pawn is moved, it is moved towards the enemy's back rank. -/
def PawnsAdvance (b : Board) (m : Move) : Prop :=
  ∀ mover ∈ b.pieceOn m.origin, mover.kind = .pawn → mover.color.Advances m.origin m.target

/-- A home of a right that outlasts a move keeps its piece. -/
theorem pieceOn_home (h : b.PassedClear) {c : Color} {w : Wing} {s : Square}
    (hc : (b.carryOut mover (b.captured? mover m) m).board.castling.has c w) (hs : c.IsHome w s) :
    (b.carryOut mover (b.captured? mover m) m).board.pieceOn s = b.pieceOn s := by
  obtain ⟨hheld, horigin, htarget⟩ := castling_carryOut.mp hc
  have ho : m.origin ≠ s := fun e => horigin (e ▸ hs)
  have ht : m.target ≠ s := fun e => htarget (e ▸ hs)
  refine pieceOn_carryOut_of_apart ho ht (fun v hv e => ?_) (fun w' hw' => ?_)
  · have hoff : v.square ≠ m.target := fun e' => ht (e'.symm.trans e)
    obtain ⟨hep, hshift⟩ := captured?_off_target hv hoff
    exact h _ _ _ hep hshift c w hheld (e ▸ hs)
  · -- a king that castles has left its home, so its right is gone: this one is the other side's
    obtain ⟨-, hking, -⟩ := castlingWing?_eq_some hw'
    have hcolor : mover.color ≠ c := fun e => horigin (Or.inl (e ▸ hking))
    have hrank : s.rank ≠ mover.color.backRank := fun e => hcolor (Color.backRank_inj (e.symm.trans hs.rank_eq))
    constructor
    · rintro rfl
      exact hrank (by cases w' <;> exact Square.rank_ofCoords _ _)
    · rintro rfl
      exact hrank (by cases w' <;> exact Square.rank_ofCoords _ _)

/-- The squares before and beyond the target of a double step forward are the squares of the step. -/
theorem shift?_enPassantAfter {t s : Square} {c : Color}
    (hadv : mover.kind = .pawn → mover.color.Advances m.origin m.target) (ht : enPassantAfter mover m = some t)
    (hs : t.shift? (-c.forward) = some s) : s = m.origin ∨ s = m.target := by
  rw [enPassantAfter_eq] at ht
  split at ht
  · rename_i hstep
    obtain ⟨hpawn, hfar⟩ := hstep
    have hadv := hadv hpawn
    have ht := Square.shift?_eq_some_iff.mp ht
    have hs := Square.shift?_eq_some_iff.mp hs
    have hor : s.index.val = m.origin.index.val ∨ s.index.val = m.target.index.val := by
      cases hm : mover.color with
      | white =>
        simp only [hm, Color.Advances, Square.rank, Fin.mk_lt_mk] at hadv
        cases c <;> simp only [hm, Color.forward] at ht hs <;> omega
      | black =>
        simp only [hm, Color.Advances, Square.rank, Fin.mk_lt_mk] at hadv
        cases c <;> simp only [hm, Color.forward] at ht hs <;> omega
    exact hor.imp Square.ext Square.ext
  · cases ht

theorem reliable_play {p : Played} (hm : b.PawnsAdvance m) (h : b.Reliable) (hp : b.play m = .ok p) :
    p.board.Reliable := by
  obtain ⟨mover, hmover, -, rfl⟩ := play_eq_ok_iff.mp hp
  constructor
  · intro c w hc
    have hheld := (castling_carryOut.mp hc).1
    rw [pieceOn_home h.clear hc (Or.inl rfl), pieceOn_home h.clear hc (Or.inr rfl)]
    exact h.truthful c w hheld
  · intro t s c ht hs c' w hc
    obtain ⟨-, horigin, htarget⟩ := castling_carryOut.mp hc
    rcases shift?_enPassantAfter (hm mover hmover) ht hs with rfl | rfl
    · exact horigin
    · exact htarget

/-! ## A line of moves -/

/-- The rights of the second board are among those of the first. -/
def KeepsRights (b b' : Board) : Prop := ∀ c w, b'.castling.has c w → b.castling.has c w

theorem keepsRights_play {p : Played} (hp : b.play m = .ok p) : b.KeepsRights p.board := by
  obtain ⟨mover, -, -, rfl⟩ := play_eq_ok_iff.mp hp
  exact fun c w hc => (castling_carryOut.mp hc).1

theorem pairwise_keepsRights (b : Board) (ms : List Move) : (b.boardsAlong ms).Pairwise KeepsRights := by
  induction ms generalizing b with
  | nil => exact List.pairwise_singleton _ _
  | cons m ms ih =>
    cases hp : b.play m with
    | error e =>
      rw [boardsAlong_of_error hp]
      exact ih b
    | ok p =>
      rw [boardsAlong_of_ok hp]
      have hany : p.board.Throughout (fun _ _ => True) ms := throughout_of_forall (fun _ _ => trivial) _ _
      refine List.pairwise_cons.mpr ⟨forall_boardsAlong ?_ hany (keepsRights_play hp), ih p.board⟩
      intro b₁ m₁ p₁ _ hb₁ hp₁ c w hc
      exact hb₁ c w (keepsRights_play hp₁ c w hc)

/-- On every board of a line that begins without an en passant target and in which pawns go
    forward, the king and the rook of each right held stand at home if they did so at first;
    and the rights of a later board are among those of any earlier one. -/
theorem rights_stay_truthful {ms : List Move} (hpassant : b.enPassant = none) (ht : b.RightsTruthful)
    (hms : b.Throughout PawnsAdvance ms) :
    (∀ b' ∈ b.boardsAlong ms, b'.RightsTruthful) ∧ (b.boardsAlong ms).Pairwise KeepsRights := by
  have hstart : b.Reliable := by
    refine ⟨ht, fun t s c hpassed => ?_⟩
    rw [hpassant] at hpassed
    cases hpassed
  have hline : ∀ b' ∈ b.boardsAlong ms, b'.Reliable := forall_boardsAlong reliable_play hms hstart
  exact ⟨fun b' hb' => (hline b' hb').truthful, pairwise_keepsRights b ms⟩

/-- The kings at home, White's rook on h1 and Black's on a8, a white pawn on a1 and a black one on b3. -/
def corners : Board :=
  { ofPieces
      [⟨⟨.white, .king⟩, Color.white.kingHome⟩, ⟨⟨.white, .rook⟩, Color.white.rookHome .king⟩,
       ⟨⟨.white, .pawn⟩, Color.white.rookHome .queen⟩, ⟨⟨.black, .king⟩, Color.black.kingHome⟩,
       ⟨⟨.black, .rook⟩, Color.black.rookHome .queen⟩, ⟨⟨.black, .pawn⟩, ⟨⟨17, by decide⟩⟩⟩] with
    castling := (CastlingRights.none.grant .white .king).grant .black .queen }

/-- The pawn on a1 steps over a2 and is taken there by the one from b3, White's king is refused
    e8 and castles, and Black's right outlasts it all. -/
theorem rights_stay_truthful_around_a_corner :
    let ms : List Move :=
      [⟨.ofCoords 0 0, .ofCoords 2 0, none⟩, ⟨.ofCoords 2 1, .ofCoords 1 0, none⟩,
       ⟨Color.white.kingHome, Color.black.kingHome, none⟩, ⟨Color.white.kingHome, Color.white.kingCastled .king, none⟩]
    corners.enPassant = none ∧ corners.RightsTruthful ∧ corners.Throughout PawnsAdvance ms ∧
      (corners.along ms).length = 3 ∧
      (∀ b' ∈ corners.boardsAlong ms, b'.RightsTruthful) ∧ (corners.boardsAlong ms).Pairwise KeepsRights := by
  intro ms
  have ht : corners.RightsTruthful := by
    intro c w
    cases c <;> cases w <;> decide
  have hms : corners.Throughout PawnsAdvance ms := by
    refine ⟨?_, ?_, ?_, ?_, trivial⟩ <;> (unfold PawnsAdvance; decide)
  exact ⟨rfl, ht, hms, by decide, rights_stay_truthful rfl ht hms⟩

-- A pawn that steps back from a6 to a4 leaves its target on a7; the pawn that comes there from b8
-- takes the rook of its own side beyond it, and the right stays.
example :
    let b : Board :=
      { ofPieces
          [⟨⟨.black, .king⟩, Color.black.kingHome⟩, ⟨⟨.black, .rook⟩, Color.black.rookHome .queen⟩,
           ⟨⟨.white, .pawn⟩, .ofCoords 5 0⟩, ⟨⟨.black, .pawn⟩, .ofCoords 7 1⟩] with
        castling := CastlingRights.none.grant .black .queen }
    let last := [⟨.ofCoords 5 0, .ofCoords 3 0, none⟩, ⟨.ofCoords 7 1, .ofCoords 6 0, none⟩].foldl playOn b
    last.castling.has .black .queen ∧ last.pieceOn (Color.black.rookHome .queen) = none := by decide

end Board

end ChessEval
