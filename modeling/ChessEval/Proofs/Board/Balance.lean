/-
  ChessEval.Proofs.Board.Balance — the change that a move reports against the change that
  it makes.

  The pieces of a position are a multiset of placed pieces. Writing one square exchanges
  what it held for what it is given (`occupied_set`), and every law here adds such
  exchanges up.

  - `carryOut_balance`: a move that leaves its square reports the change it makes: the
    pieces after it with those reported as gone are the pieces before it with those
    reported as come.
  - `carryOut_balance_self`: a piece that stays on its square takes itself. It is reported
    as gone twice, as the mover and as the piece taken, and as come once; so the report is
    one removal too many.
  - `play_balances_iff`: of the accepted moves exactly those to another square report
    the change they make. Every move, also one to its own square, reports as gone only
    pieces that stood, as come only pieces that stand, and keeps within the room of a
    change however the report is written down (`recorded`).
-/

import ChessEval.Proofs.Board.Playing
import Mathlib.Algebra.Order.Group.Multiset
import Mathlib.Tactic.Abel

namespace ChessEval

/-! ## The pieces of a position -/

/-- What a square contributes to the pieces when it holds `o`. -/
def Square.holding (s : Square) (o : Option Piece) : Multiset PlacedPiece :=
  ((o.map (⟨·, s⟩)).toList : List PlacedPiece)

@[simp] theorem Square.holding_none (s : Square) : s.holding none = 0 := rfl

@[simp] theorem Square.holding_some (s : Square) (p : Piece) : s.holding (some p) = {⟨p, s⟩} := rfl

namespace Placement

theorem mem_occupied {p : Placement} {q : PlacedPiece} : q ∈ p.occupied ↔ p.get q.square = some q.piece := by
  simp only [occupied, List.mem_filterMap, Option.map_eq_some_iff]
  constructor
  · rintro ⟨s, -, piece, hp, rfl⟩
    exact hp
  · intro h
    exact ⟨q.square, Square.mem_all _, q.piece, h, rfl⟩

theorem nodup_all : Square.all.Nodup :=
  (List.nodup_finRange 64).map fun i j h => by simpa using h

/-- The pieces off a square. -/
def away (p : Placement) (s : Square) : List PlacedPiece :=
  (Square.all.erase s).filterMap fun t => (p.get t).map (⟨·, t⟩)

theorem occupied_eq_holding_add_away (p : Placement) (s : Square) :
    (p.occupied : Multiset PlacedPiece) = s.holding (p.get s) + p.away s := by
  have hperm : p.occupied.Perm ((s :: Square.all.erase s).filterMap fun t => (p.get t).map (⟨·, t⟩)) :=
    (List.perm_cons_erase (Square.mem_all s)).filterMap _
  rw [Multiset.coe_eq_coe.mpr hperm]
  cases hs : p.get s with
  | none => simp [away, hs]
  | some q => simp [away, hs]

theorem away_set (p : Placement) (s : Square) (o : Option Piece) : (p.set s o).away s = p.away s := by
  unfold away
  apply List.filterMap_congr
  intro t ht
  have hne : s ≠ t := by
    rintro rfl
    exact nodup_all.not_mem_erase ht
  rw [get_set, if_neg hne]

/-- Writing a square exchanges what it held for what it is given. -/
theorem occupied_set (p : Placement) (s : Square) (o : Option Piece) :
    ((p.set s o).occupied : Multiset PlacedPiece) + s.holding (p.get s) = p.occupied + s.holding o := by
  rw [occupied_eq_holding_add_away p s, occupied_eq_holding_add_away (p.set s o) s, away_set, get_set, if_pos rfl]
  abel

theorem set_set (p : Placement) (s : Square) (o o' : Option Piece) : (p.set s o).set s o' = p.set s o' := by
  ext1 t
  simp only [get_set]
  split <;> rfl

theorem occupied_clear {p : Placement} {v : PlacedPiece} (h : p.get v.square = some v.piece) :
    ((p.set v.square none).occupied : Multiset PlacedPiece) + {v} = p.occupied := by
  have hset := occupied_set p v.square none
  rw [h] at hset
  simpa using hset

/-- A piece that goes from one square to an empty one, perhaps as another piece. -/
theorem occupied_relocate {p : Placement} {s t : Square} {old : Piece} (new : Piece) (hs : p.get s = some old)
    (ht : p.get t = none) :
    (((p.set s none).set t (some new)).occupied : Multiset PlacedPiece) + {⟨old, s⟩} = p.occupied + {⟨new, t⟩} := by
  have hleft : ((p.set s none).occupied : Multiset PlacedPiece) + {⟨old, s⟩} = p.occupied :=
    occupied_clear (v := ⟨old, s⟩) hs
  have hcame := occupied_set (p.set s none) t (some new)
  have hfree : (p.set s none).get t = none := by
    rw [get_set]
    split
    · rfl
    · exact ht
  rw [hfree] at hcame
  simp only [Square.holding_none, Square.holding_some, add_zero] at hcame
  rw [hcame, add_right_comm, hleft]

end Placement

/-- The change leads from the pieces of one position to those of another, with none to spare. -/
def Change.Balances (c : Change) (before after : Position) : Prop :=
  (after.occupied : Multiset PlacedPiece) + c.removed = before.occupied + c.added

namespace Board

variable {b : Board} {m : Move} {mover : Piece}

/-! ## The two parts of a move -/

/-- What the mover becomes. -/
def arrival (mover : Piece) (m : Move) : PlacedPiece := ⟨{ mover with kind := m.promotion.getD mover.kind }, m.target⟩

theorem occupied_moveCells (hm : b.pieceOn m.origin = some mover) (hne : m.origin ≠ m.target) :
    ((moveCells b.placement mover (b.captured? mover m) m).occupied : Multiset PlacedPiece) +
      ({⟨mover, m.origin⟩} + (b.captured? mover m).toList) = b.placement.occupied + {arrival mover m} := by
  cases hc : b.captured? mover m with
  | none =>
    have hmoved := Placement.occupied_relocate (arrival mover m).piece hm (captured?_eq_none hc)
    rw [Option.toList_none, Multiset.coe_nil, add_zero]
    exact hmoved
  | some v =>
    obtain ⟨hv, htarget⟩ := captured?_eq_some hc
    have htaken := Placement.occupied_clear hv
    have hv_origin : v.square ≠ m.origin := by
      rcases htarget with h | ⟨-, -, h⟩
      · rw [h]
        exact hne.symm
      · exact h
    have hfrom : (b.placement.set v.square none).get m.origin = some mover := by
      rw [Placement.get_set, if_neg hv_origin]
      exact hm
    have hto : (b.placement.set v.square none).get m.target = none := by
      rw [Placement.get_set]
      split
      · rfl
      · exact (htarget.resolve_left ‹_›).1
    have hmoved := Placement.occupied_relocate (arrival mover m).piece hfrom hto
    calc ((moveCells b.placement mover (some v) m).occupied : Multiset PlacedPiece) +
          ({⟨mover, m.origin⟩} + (some v).toList)
        = (moveCells b.placement mover (some v) m).occupied + {⟨mover, m.origin⟩} + {v} := by
          rw [add_assoc]
          rfl
      _ = (b.placement.set v.square none).occupied + {arrival mover m} + {v} := congrArg (· + {v}) hmoved
      _ = b.placement.occupied + {arrival mover m} := by rw [add_right_comm, htaken]

/-- The rook's part of a change: gone from its corner, and come beside the king. -/
def rookGone (mover : Piece) (r : Option RookMove) : List PlacedPiece :=
  (r.map fun r => ⟨⟨mover.color, .rook⟩, r.origin⟩).toList

def rookCome (mover : Piece) (r : Option RookMove) : List PlacedPiece :=
  (r.map fun r => ⟨⟨mover.color, .rook⟩, r.target⟩).toList

theorem occupied_rookCells (cells : Placement) (mover : Piece) (captured : Option PlacedPiece) (m : Move) :
    let r := castlingRook? cells mover captured m
    ((rookCells cells mover r).occupied : Multiset PlacedPiece) + rookGone mover r =
      cells.occupied + rookCome mover r := by
  intro r
  cases hr : r with
  | none => rfl
  | some r =>
    obtain ⟨-, hfrom, hto, -⟩ := castlingRook?_eq_some hr
    exact Placement.occupied_relocate _ hfrom hto

/-! ## The whole move -/

/-- A move that leaves its square reports the change it makes. -/
theorem carryOut_balance (hm : b.pieceOn m.origin = some mover) (hne : m.origin ≠ m.target) :
    let p := b.carryOut mover (b.captured? mover m) m
    p.change.Balances b.toPosition p.board.toPosition := by
  intro p
  let cells := moveCells b.placement mover (b.captured? mover m) m
  let rook := castlingRook? cells mover (b.captured? mover m) m
  have hmover : (cells.occupied : Multiset PlacedPiece) + ({⟨mover, m.origin⟩} + (b.captured? mover m).toList) =
      b.placement.occupied + {arrival mover m} := occupied_moveCells hm hne
  have hrook : (p.board.occupied : Multiset PlacedPiece) + rookGone mover rook = cells.occupied + rookCome mover rook :=
    occupied_rookCells cells mover (b.captured? mover m) m
  show (p.board.occupied : Multiset PlacedPiece) +
      (({⟨mover, m.origin⟩} + (b.captured? mover m).toList) + rookGone mover rook) =
    b.placement.occupied + ({arrival mover m} + rookCome mover rook)
  calc (p.board.occupied : Multiset PlacedPiece) +
        (({⟨mover, m.origin⟩} + (b.captured? mover m).toList) + rookGone mover rook)
      = (p.board.occupied + rookGone mover rook) + ({⟨mover, m.origin⟩} + (b.captured? mover m).toList) := by abel
    _ = (cells.occupied + ({⟨mover, m.origin⟩} + (b.captured? mover m).toList)) + rookCome mover rook := by
      rw [hrook]
      abel
    _ = b.placement.occupied + ({arrival mover m} + rookCome mover rook) := by rw [hmover, add_assoc]

/-- A piece that stays on its square is reported as gone twice and as come once, though it
    is only exchanged for what it becomes. -/
theorem carryOut_balance_self (hm : b.pieceOn m.origin = some mover) (he : m.origin = m.target) :
    let p := b.carryOut mover (b.captured? mover m) m
    p.change = ⟨[⟨mover, m.origin⟩, ⟨mover, m.origin⟩], [arrival mover m]⟩ ∧
      (p.board.occupied : Multiset PlacedPiece) + {⟨mover, m.origin⟩} = b.placement.occupied + {arrival mover m} := by
  intro p
  have hself := captured?_self he hm
  have hcells : p.board.placement = b.placement.set m.origin (some (arrival mover m).piece) := by
    simp only [p, hself, carryOut_eq, castlingRook?_of_capture, rookCells_none, moveCells_eq, ← he, Placement.set_set]
    rfl
  constructor
  · simp only [p, hself, carryOut_eq, castlingRook?_of_capture, changeOf, Option.toList_some, Option.map_none,
      Option.toList_none, List.append_nil, arrival]
  · have hset := Placement.occupied_set b.placement m.origin (some (arrival mover m).piece)
    rw [show b.placement.get m.origin = some mover from hm, ← hcells] at hset
    have hat : (⟨(arrival mover m).piece, m.origin⟩ : PlacedPiece) = arrival mover m := by rw [he]; rfl
    rw [Square.holding_some, Square.holding_some, hat] at hset
    exact hset

/-- Whatever the move, the pieces reported as gone stood on the board. -/
theorem carryOut_removed_stood (hm : b.pieceOn m.origin = some mover) :
    ∀ q ∈ (b.carryOut mover (b.captured? mover m) m).change.removed, q ∈ b.occupied := by
  intro q hq
  apply Placement.mem_occupied.mpr
  rw [carryOut_eq] at hq
  rcases List.mem_append.mp hq with hq | hq
  · rcases List.mem_cons.mp hq with rfl | hq
    · exact hm
    · exact (captured?_eq_some (Option.mem_toList.mp hq)).1
  · obtain ⟨r, hr, rfl⟩ := Option.map_eq_some_iff.mp (Option.mem_toList.mp hq)
    obtain ⟨hnone, hfrom, -, w, hw, rfl⟩ := castlingRook?_eq_some hr
    obtain ⟨-, h1, h2, -⟩ := rookMove_apart hw
    rw [hnone] at hfrom
    simpa only [moveCells_eq, Placement.get_set, h1.symm, h2.symm, if_false] using hfrom

/-- Whatever the move, the pieces reported as come stand on the board after it. -/
theorem carryOut_added_stand (b : Board) (mover : Piece) (captured : Option PlacedPiece) (m : Move) :
    ∀ q ∈ (b.carryOut mover captured m).change.added, q ∈ (b.carryOut mover captured m).board.occupied := by
  intro q hq
  apply Placement.mem_occupied.mpr
  show (rookCells _ mover (castlingRook? (moveCells b.placement mover captured m) mover captured m)).get q.square =
    some q.piece
  have hmoved : (moveCells b.placement mover captured m).get m.target = some (arrival mover m).piece := by
    simp only [moveCells_eq, Placement.get_set, if_true]
    rfl
  cases hr : castlingRook? (moveCells b.placement mover captured m) mover captured m with
  | none =>
    simp only [carryOut_eq, changeOf, hr, Option.map_none, Option.toList_none, List.mem_singleton] at hq
    subst hq
    exact hmoved
  | some r =>
    simp only [carryOut_eq, changeOf, hr, Option.map_some, Option.toList_some, List.mem_cons, List.not_mem_nil,
      or_false] at hq
    obtain ⟨-, -, -, w, hw, rfl⟩ := castlingRook?_eq_some hr
    obtain ⟨-, -, h2, -, h4⟩ := rookMove_apart hw
    rcases hq with rfl | rfl
    · simp only [rookCells_some, Placement.get_set, h2, h4, if_false]
      exact hmoved
    · simp only [rookCells_some, Placement.get_set, if_true]

/-! ## Writing the change down -/

/-- The change as it is written down while the move is carried out, entry by entry, each
    entry refused if there is no room for it. -/
def recorded (mover : Piece) (captured : Option PlacedPiece) (rook : Option RookMove) (m : Move) :
    Except Fault Change := do
  let c ← Change.empty.remove ⟨mover, m.origin⟩
  let c ← match captured with
    | some v => c.remove v
    | none => pure c
  let c ← c.add (arrival mover m)
  match rook with
  | some r => (← c.remove ⟨⟨mover.color, .rook⟩, r.origin⟩).add ⟨⟨mover.color, .rook⟩, r.target⟩
  | none => pure c

theorem recorded_eq {captured : Option PlacedPiece} {rook : Option RookMove} (h : captured = none ∨ rook = none) :
    recorded mover captured rook m = .ok (changeOf mover captured rook m) := by
  rcases h with rfl | rfl
  · cases rook <;> rfl
  · cases captured <;> rfl

theorem length_changeOf {captured : Option PlacedPiece} {rook : Option RookMove} (h : captured = none ∨ rook = none) :
    (changeOf mover captured rook m).removed.length ≤ Change.capacity ∧
      (changeOf mover captured rook m).added.length ≤ Change.capacity := by
  rcases h with rfl | rfl
  · cases rook <;> simp [changeOf, Change.capacity]
  · cases captured <;> simp [changeOf, Change.capacity]

/-! ## Accepted moves -/

/-- An accepted move to another square reports the change it makes. -/
theorem play_balances {p : Played} (h : b.play m = .ok p) (hne : m.origin ≠ m.target) :
    p.change.Balances b.toPosition p.board.toPosition := by
  obtain ⟨mover, hm, -, rfl⟩ := play_eq_ok_iff.mp h
  exact carryOut_balance hm hne

/-- An accepted move reports exactly the change it makes if and only if it goes to another
    square. In any case what it reports as gone stood before, what it reports as come
    stands after, and writing the change down entry by entry never runs out of room. -/
theorem play_balances_iff {p : Played} (h : b.play m = .ok p) :
    (p.change.Balances b.toPosition p.board.toPosition ↔ m.origin ≠ m.target) ∧
      (∀ q ∈ p.change.removed, q ∈ b.occupied) ∧ (∀ q ∈ p.change.added, q ∈ p.board.occupied) ∧
      p.change.removed.length ≤ Change.capacity ∧ p.change.added.length ≤ Change.capacity ∧
      recorded p.undo.moved p.undo.captured p.undo.rook m = .ok p.change := by
  obtain ⟨mover, hm, -, rfl⟩ := play_eq_ok_iff.mp h
  have hroom : b.captured? mover m = none ∨
      castlingRook? (moveCells b.placement mover (b.captured? mover m) m) mover (b.captured? mover m) m = none := by
    cases b.captured? mover m with
    | none => exact Or.inl rfl
    | some v => exact Or.inr (castlingRook?_of_capture _ _ _ _)
  refine ⟨⟨fun hbal he => ?_, carryOut_balance hm⟩, carryOut_removed_stood hm, carryOut_added_stand _ _ _ _,
    (length_changeOf hroom).1, (length_changeOf hroom).2, recorded_eq hroom⟩
  obtain ⟨hchange, hcells⟩ := carryOut_balance_self hm he
  unfold Change.Balances at hbal
  have hcards := congrArg Multiset.card hbal
  have hcount := congrArg Multiset.card hcells
  simp only [hchange, Multiset.card_add, Multiset.coe_card, Multiset.card_singleton, List.length_cons,
    List.length_nil] at hcards hcount
  change _ = b.placement.occupied.length + _ at hcards
  omega

/-- A white king at home with its rook. -/
def readyToCastle : Board :=
  ((Board.empty.put Color.white.kingHome ⟨.white, .king⟩).put (Color.white.rookHome .king) ⟨.white, .rook⟩)

theorem castling_balances :
    let m : Move := ⟨Color.white.kingHome, Color.white.kingCastled .king, none⟩
    ∃ p, readyToCastle.play m = .ok p ∧
      (p.change.Balances readyToCastle.toPosition p.board.toPosition ↔ m.origin ≠ m.target) ∧
      (∀ q ∈ p.change.removed, q ∈ readyToCastle.occupied) ∧ (∀ q ∈ p.change.added, q ∈ p.board.occupied) ∧
      p.change.removed.length ≤ Change.capacity ∧ p.change.added.length ≤ Change.capacity ∧
      recorded p.undo.moved p.undo.captured p.undo.rook m = .ok p.change := by
  intro m
  exact ⟨_, rfl, play_balances_iff rfl⟩

/-- The rook of the initial position that stays on a1: the pieces are as they were, but one
    rook is reported as gone twice and as come once. -/
theorem a_rook_that_stays_is_gone_twice :
    let a1 : PlacedPiece := ⟨⟨.white, .rook⟩, Color.white.rookHome .queen⟩
    ∃ p, Board.start.play ⟨a1.square, a1.square, none⟩ = .ok p ∧ p.board.placement = Board.start.placement ∧
      p.change = ⟨[a1, a1], [a1]⟩ ∧ ¬ p.change.Balances Board.start.toPosition p.board.toPosition := by
  intro a1
  have hplay : Board.start.play ⟨a1.square, a1.square, none⟩ =
      .ok (Board.start.carryOut a1.piece (some a1) ⟨a1.square, a1.square, none⟩) := by decide
  refine ⟨_, hplay, by decide, by decide, fun hbal => ?_⟩
  have hcards := congrArg Multiset.card hbal
  revert hcards
  decide

end Board

end ChessEval
