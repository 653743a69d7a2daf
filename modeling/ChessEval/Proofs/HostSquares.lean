/-
  ChessEval.Proofs.HostSquares — the squares that come into the hands of a host.

  A host gets squares from calls of the library, hands them to others, and may have them read from
  stored values (`Obtained`). A square is a byte, and only where it is used is it looked at.
  - `Call.answers`: a call whose arguments are squares of the board answers, and gives such squares back.
  - `host_squares_iff`: so every square that a host obtains is on the board, and no call faults, exactly
    if no stored number from 64 to 255 is read. Reading a square takes any byte.
  - `a_stored_number_past_h8`: what happens with such a number.
-/

import ChessEval.Proofs.Board.ByBytes
import ChessEval.Proofs.Network.Edits

namespace ChessEval.Stored

/-! ## What a host holds -/

/-- A value with squares in it. -/
inductive Held where
  | square (x : StoredSquare)
  | placed (p : StoredPlaced)
  | move (m : StoredMove)
  | board (b : StoredBoard)
  | undo (u : StoredUndo)

namespace Held

def squares : Held → List StoredSquare
  | square x => [x]
  | placed p => [p.square]
  | move m => [m.origin, m.target]
  | board b => b.enPassant.toList
  | undo u =>
    [u.move.origin, u.move.target] ++ u.captured.toList.flatMap (fun v => [v.square]) ++
      u.rook.toList.flatMap (fun r => [r.origin, r.target]) ++ u.enPassant.toList

def OnBoard (v : Held) : Prop := ∀ x ∈ v.squares, x.OnBoard

end Held

namespace StoredPlaced

/-- The number of the row of a piece for one side, from the indices of its colour and kind and its byte. -/
def rowNumber (p : StoredPlaced) : Color → Nat
  | .white => p.piece.color.index * colorStride + p.piece.kind.index * kindStride + p.square.number.toNat
  | .black =>
    (p.piece.color.index.val ^^^ 1) * colorStride + p.piece.kind.index * kindStride + (p.square.number.toNat ^^^ 56)

/-- Adds or takes away the rows of a piece, White's first. -/
def switch (p : StoredPlaced) (net : Network) (a : Accumulator) (add : Bool) : Except Fault Accumulator := do
  (← a.update net .white (p.rowNumber .white) add).update net .black (p.rowNumber .black) add

theorem rowNumber_ofPlaced (p : PlacedPiece) (c : Color) : (ofPlaced p).rowNumber c = p.rowNumber c := by
  cases c <;> simp only [rowNumber, ofPlaced, StoredSquare.number_ofSquare, PlacedPiece.rowNumber]

theorem switch_ofPlaced (p : PlacedPiece) (net : Network) (a : Accumulator) (add : Bool) :
    (ofPlaced p).switch net a add = .ok ((if add then Accumulator.place net else Accumulator.lift net) a p) := by
  rw [← Accumulator.updateByNumber_eq_ok, switch, rowNumber_ofPlaced, rowNumber_ofPlaced, Accumulator.updateByNumber]

end StoredPlaced

/-! ## Calls -/

/-- A call that takes squares or gives squares back. -/
inductive Call where
  | coords (rank file : UInt8)
  | all
  | name (text : String)
  | flip (x : StoredSquare)
  | moveText (text : String)
  | moveOf (origin target : StoredSquare) (promotion : Option Kind)
  /-- A piece on a square, as a change lists it. -/
  | stand (piece : Piece) (x : StoredSquare)
  | start
  | empty
  | fen (text : String)
  /-- The board with the side to move and the clock set. -/
  | settle (b : StoredBoard) (side : Color) (clock : UInt32)
  | pieceOn (b : StoredBoard) (x : StoredSquare)
  | put (b : StoredBoard) (x : StoredSquare) (p : Piece)
  | take (b : StoredBoard) (x : StoredSquare)
  | occupied (b : StoredBoard)
  | play (b : StoredBoard) (m : StoredMove)
  | takeBack (b : StoredBoard) (u : StoredUndo)
  /-- The accumulator with the rows of a piece added or taken away. -/
  | switch (p : StoredPlaced) (net : Network) (a : Accumulator) (add : Bool)
  /-- The squares of a value. An undo does not show its own, which count all the same. -/
  | parts (v : Held)

namespace Call

def args : Call → List Held
  | coords .. | all | name _ | moveText _ | start | empty | fen _ => []
  | flip x | stand _ x => [.square x]
  | moveOf origin target _ => [.square origin, .square target]
  | settle b .. | occupied b => [.board b]
  | pieceOn b x | put b x _ | take b x => [.board b, .square x]
  | play b m => [.board b, .move m]
  | takeBack b u => [.board b, .undo u]
  | switch p .. => [.placed p]
  | parts v => [v]

/-- What a played move gives back: the board, the change and the undo. A refusal names its square. -/
def given : Except StoredMoveError StoredPlayed → List Held
  | .ok p => .board p.board :: .undo p.undo :: (p.change.removed ++ p.change.added).map .placed
  | .error (.emptyOrigin x) | .error (.kingCapture x) => [.square x]

/-- The values with squares in them that the call gives back. -/
def run : Call → Except Fault (List Held)
  | coords rank file => .ok ((StoredSquare.ofCoords? rank file).map .square).toList
  | all => .ok (StoredSquare.all.map .square)
  | name text => .ok ((StoredSquare.ofLetters? text.toList).map .square).toList
  | flip x => .ok [.square x.flip]
  | moveText text => .ok (match StoredMove.ofText? text with
    | some (.ok m) => [.move m]
    | _ => [])
  | moveOf origin target promotion => .ok [.move ⟨origin, target, promotion⟩]
  | stand piece x => .ok [.placed ⟨piece, x⟩]
  | start => .ok [.board (.ofBoard .start)]
  | empty => .ok [.board (.ofBoard .empty)]
  | fen text => do
    match ← StoredBoard.ofFen text with
    | .ok b => return [.board b]
    | .error _ => return []
  | settle b side clock => .ok [.board { b with sideToMove := side, halfmoveClock := clock }]
  | pieceOn b x => do
    let _ ← b.pieceOn x
    return []
  | put b x p => do return [.board (← b.put x p)]
  | take b x => do return [.board (← b.take x).1]
  | occupied b => do return (← b.occupied).map .placed
  | play b m => do return given (← b.play m)
  | takeBack b u => do return [.board (← b.takeBack u)]
  | switch p net a add => do
    let _ ← p.switch net a add
    return []
  | parts v => .ok (v.squares.map .square)

end Call

/-- The values that a host can come to hold: what is read of the stored values that it accepts, and what calls give
    back for values that it holds. -/
inductive Obtained (accepts : Value → Prop) : Held → Prop
  | stored {v : Value} {x : StoredSquare} (hv : accepts v) (hx : readSquare v = some x) : Obtained accepts (.square x)
  | given {c : Call} {vs : List Held} {v : Held} (hargs : ∀ a ∈ c.args, Obtained accepts a) (hrun : c.run = .ok vs)
      (hv : v ∈ vs) : Obtained accepts v

/-! ## Values of the board -/

namespace Held

/-- An optional value is the image of one if what it holds is. -/
theorem exists_map_iff {α β : Type} {f : α → β} {o : Option β} :
    (∃ p : Option α, o = p.map f) ↔ ∀ x ∈ o, ∃ a, x = f a := by
  constructor
  · rintro ⟨p, rfl⟩ x hx
    obtain ⟨a, -, rfl⟩ := Option.map_eq_some_iff.mp hx
    exact ⟨a, rfl⟩
  · intro h
    cases o with
    | none => exact ⟨none, rfl⟩
    | some x =>
      obtain ⟨a, rfl⟩ := h x rfl
      exact ⟨some a, rfl⟩

theorem onBoard_pair_iff {x y : StoredSquare} :
    x.OnBoard ∧ y.OnBoard ↔ ∃ s t, x = .ofSquare s ∧ y = .ofSquare t := by
  rw [StoredSquare.onBoard_iff, StoredSquare.onBoard_iff, exists_and_exists_comm]

theorem onBoard_square_iff {x : StoredSquare} : (square x).OnBoard ↔ ∃ s, x = .ofSquare s :=
  List.forall_mem_singleton.trans StoredSquare.onBoard_iff

theorem onBoard_ofSquare (s : Square) : (square (.ofSquare s)).OnBoard := onBoard_square_iff.mpr ⟨s, rfl⟩

theorem onBoard_placed_iff {p : StoredPlaced} : (placed p).OnBoard ↔ ∃ q, p = .ofPlaced q := by
  refine onBoard_square_iff.trans ⟨?_, ?_⟩
  · rintro ⟨s, hs⟩
    exact ⟨⟨p.piece, s⟩, congrArg (PlacedPiece.mk p.piece) hs⟩
  · rintro ⟨q, rfl⟩
    exact ⟨q.square, rfl⟩

theorem onBoard_move {m : StoredMove} : (move m).OnBoard ↔ m.origin.OnBoard ∧ m.target.OnBoard := by
  simp only [OnBoard, squares, List.forall_mem_cons, List.not_mem_nil, false_imp_iff, implies_true, and_true]

theorem onBoard_move_iff {m : StoredMove} : (move m).OnBoard ↔ ∃ m', m = .ofMove m' := by
  rw [onBoard_move, onBoard_pair_iff]
  constructor
  · rintro ⟨s, t, hs, ht⟩
    refine ⟨⟨s, t, m.promotion⟩, ?_⟩
    rw [StoredMove.ofMove, ← hs, ← ht]
  · rintro ⟨m', rfl⟩
    exact ⟨m'.origin, m'.target, rfl, rfl⟩

theorem onBoard_board_iff {b : StoredBoard} : (board b).OnBoard ↔ ∃ b', b = .ofBoard b' := by
  have htarget : (board b).OnBoard ↔ ∃ e : Option Square, b.enPassant = e.map .ofSquare := by
    simp only [exists_map_iff, ← StoredSquare.onBoard_iff, OnBoard, squares, Option.mem_toList, Option.mem_def]
  rw [htarget]
  constructor
  · rintro ⟨e, he⟩
    refine ⟨⟨b.toPosition, e, b.castling, b.fullmoveNumber⟩, ?_⟩
    rw [StoredBoard.ofBoard, ← he]
  · rintro ⟨b', rfl⟩
    exact ⟨b'.enPassant, rfl⟩

theorem onBoard_rook_iff {r : StoredRookMove} : r.origin.OnBoard ∧ r.target.OnBoard ↔ ∃ r', r = .ofRookMove r' := by
  rw [onBoard_pair_iff]
  constructor
  · rintro ⟨s, t, hs, ht⟩
    refine ⟨⟨s, t⟩, ?_⟩
    rw [StoredRookMove.ofRookMove, ← hs, ← ht]
  · rintro ⟨r', rfl⟩
    exact ⟨r'.origin, r'.target, rfl, rfl⟩

theorem onBoard_undo {u : StoredUndo} : (undo u).OnBoard ↔ (move u.move).OnBoard ∧ (∀ v ∈ u.captured, (placed v).OnBoard) ∧
    (∀ r ∈ u.rook, r.origin.OnBoard ∧ r.target.OnBoard) ∧ ∀ x ∈ u.enPassant, x.OnBoard := by
  simp only [OnBoard, squares, List.forall_mem_append, List.forall_mem_flatMap, List.forall_mem_cons, List.not_mem_nil,
    false_imp_iff, implies_true, and_true, Option.mem_toList, Option.mem_def, and_assoc]

theorem onBoard_undo_iff {u : StoredUndo} : (undo u).OnBoard ↔ ∃ u', u = .ofUndo u' := by
  simp only [onBoard_undo, onBoard_move_iff, onBoard_placed_iff, onBoard_rook_iff]
  simp only [StoredSquare.onBoard_iff, ← exists_map_iff]
  constructor
  · rintro ⟨⟨m, hm⟩, ⟨captured, hcaptured⟩, ⟨rook, hrook⟩, e, he⟩
    refine ⟨⟨m, u.moved, captured, rook, e, u.castling, u.halfmoveClock, u.fullmoveNumber⟩, ?_⟩
    rw [StoredUndo.ofUndo, ← hm, ← hcaptured, ← hrook, ← he]
  · rintro ⟨u', rfl⟩
    exact ⟨⟨u'.move, rfl⟩, ⟨u'.captured, rfl⟩, ⟨u'.rook, rfl⟩, u'.enPassant, rfl⟩

end Held

namespace Call

open Held

/-- A move of the board gives back values of the board, played or refused. -/
theorem onBoard_given (r : Except MoveError Played) : ∀ v ∈ given ((r.map .ofPlayed).mapError .ofError), v.OnBoard := by
  cases r with
  | error e => cases e <;> exact List.forall_mem_singleton.mpr (onBoard_ofSquare _)
  | ok p =>
    have hchange : ∀ v ∈ (p.change.removed.map StoredPlaced.ofPlaced ++ p.change.added.map StoredPlaced.ofPlaced).map placed,
        v.OnBoard := by
      rw [← List.map_append, List.map_map]
      exact List.forall_mem_map.mpr fun q _ => onBoard_placed_iff.mpr ⟨q, rfl⟩
    exact List.forall_mem_cons.mpr ⟨onBoard_board_iff.mpr ⟨p.board, rfl⟩,
      List.forall_mem_cons.mpr ⟨onBoard_undo_iff.mpr ⟨p.undo, rfl⟩, hchange⟩⟩

/-- A call for values of the board answers, with values of the board. -/
theorem answers (c : Call) (h : ∀ a ∈ c.args, a.OnBoard) : ∃ vs, c.run = .ok vs ∧ ∀ v ∈ vs, v.OnBoard := by
  have hread (o : Option Square) : ∀ v ∈ ((o.map StoredSquare.ofSquare).map Held.square).toList, v.OnBoard := by
    cases o with
    | none => exact fun v hv => nomatch hv
    | some s => exact List.forall_mem_singleton.mpr (onBoard_ofSquare s)
  cases c with
  | coords rank file =>
    refine ⟨_, rfl, ?_⟩
    rw [StoredSquare.ofCoords?_eq]
    exact hread _
  | all =>
    refine ⟨_, rfl, ?_⟩
    rw [StoredSquare.all_eq, List.map_map]
    exact List.forall_mem_map.mpr fun s _ => onBoard_ofSquare s
  | name text =>
    refine ⟨_, rfl, ?_⟩
    rw [StoredSquare.ofLetters?_eq]
    exact hread _
  | flip x =>
    obtain ⟨s, rfl⟩ := onBoard_square_iff.mp (h (.square x) (.head _))
    refine ⟨_, rfl, List.forall_mem_singleton.mpr ?_⟩
    rw [StoredSquare.flip_ofSquare]
    exact onBoard_ofSquare _
  | moveText text =>
    refine ⟨_, rfl, ?_⟩
    rw [StoredMove.ofText?_eq]
    cases Move.ofText text with
    | error e => exact fun v hv => nomatch hv
    | ok m => exact List.forall_mem_singleton.mpr (onBoard_move_iff.mpr ⟨m, rfl⟩)
  | moveOf origin target promotion =>
    refine ⟨_, rfl, List.forall_mem_singleton.mpr (onBoard_move.mpr ⟨?_, ?_⟩)⟩
    · exact h (.square origin) (.head _) _ (.head _)
    · exact h (.square target) (.tail _ (.head _)) _ (.head _)
  | stand piece x => exact ⟨_, rfl, List.forall_mem_singleton.mpr (h (.square x) (.head _))⟩
  | start => exact ⟨_, rfl, List.forall_mem_singleton.mpr (onBoard_board_iff.mpr ⟨_, rfl⟩)⟩
  | empty => exact ⟨_, rfl, List.forall_mem_singleton.mpr (onBoard_board_iff.mpr ⟨_, rfl⟩)⟩
  | fen text =>
    rw [run, StoredBoard.ofFen_eq]
    cases Board.ofFen text with
    | error e => exact ⟨_, rfl, fun v hv => nomatch hv⟩
    | ok b => exact ⟨_, rfl, List.forall_mem_singleton.mpr (onBoard_board_iff.mpr ⟨b, rfl⟩)⟩
  | settle b side clock => exact ⟨_, rfl, List.forall_mem_singleton.mpr (h (.board b) (.head _))⟩
  | pieceOn b x =>
    obtain ⟨b, rfl⟩ := onBoard_board_iff.mp (h (.board b) (.head _))
    obtain ⟨s, rfl⟩ := onBoard_square_iff.mp (h (.square x) (.tail _ (.head _)))
    rw [run, StoredBoard.pieceOn_ofBoard]
    exact ⟨_, rfl, fun v hv => nomatch hv⟩
  | put b x p =>
    obtain ⟨b, rfl⟩ := onBoard_board_iff.mp (h (.board b) (.head _))
    obtain ⟨s, rfl⟩ := onBoard_square_iff.mp (h (.square x) (.tail _ (.head _)))
    rw [run, StoredBoard.put_ofBoard]
    exact ⟨_, rfl, List.forall_mem_singleton.mpr (onBoard_board_iff.mpr ⟨_, rfl⟩)⟩
  | take b x =>
    obtain ⟨b, rfl⟩ := onBoard_board_iff.mp (h (.board b) (.head _))
    obtain ⟨s, rfl⟩ := onBoard_square_iff.mp (h (.square x) (.tail _ (.head _)))
    rw [run, StoredBoard.take_ofBoard]
    exact ⟨_, rfl, List.forall_mem_singleton.mpr (onBoard_board_iff.mpr ⟨_, rfl⟩)⟩
  | occupied b =>
    obtain ⟨b, rfl⟩ := onBoard_board_iff.mp (h (.board b) (.head _))
    rw [run, StoredBoard.occupied_ofBoard]
    refine ⟨_, rfl, ?_⟩
    rw [List.map_map]
    exact List.forall_mem_map.mpr fun p _ => onBoard_placed_iff.mpr ⟨p, rfl⟩
  | play b m =>
    obtain ⟨b, rfl⟩ := onBoard_board_iff.mp (h (.board b) (.head _))
    obtain ⟨m, rfl⟩ := onBoard_move_iff.mp (h (.move m) (.tail _ (.head _)))
    rw [run, StoredBoard.play_ofBoard]
    exact ⟨_, rfl, onBoard_given _⟩
  | takeBack b u =>
    obtain ⟨b, rfl⟩ := onBoard_board_iff.mp (h (.board b) (.head _))
    obtain ⟨u, rfl⟩ := onBoard_undo_iff.mp (h (.undo u) (.tail _ (.head _)))
    rw [run, StoredBoard.takeBack_ofBoard]
    exact ⟨_, rfl, List.forall_mem_singleton.mpr (onBoard_board_iff.mpr ⟨_, rfl⟩)⟩
  | switch p net a add =>
    obtain ⟨p, rfl⟩ := onBoard_placed_iff.mp (h (.placed p) (.head _))
    rw [run, StoredPlaced.switch_ofPlaced]
    exact ⟨_, rfl, fun v hv => nomatch hv⟩
  | parts v => exact ⟨_, rfl, List.forall_mem_map.mpr fun x hx => List.forall_mem_singleton.mpr (h v (.head _) x hx)⟩

/-- A board is not accessed past its squares: the call faults. -/
theorem faults {x : StoredSquare} (h : ¬ x.OnBoard) (b : StoredBoard) :
    (pieceOn b x).run = .error (.noSuchRow x.number.toNat 64) ∧
    (∀ p, (put b x p).run = .error (.noSuchRow x.number.toNat 64)) ∧
    (take b x).run = .error (.noSuchRow x.number.toNat 64) ∧
    (∀ target promotion, (play b ⟨x, target, promotion⟩).run = .error (.noSuchRow x.number.toNat 64)) ∧
    ∀ s promotion, b.placement.get s ≠ none →
      (play b ⟨.ofSquare s, x, promotion⟩).run = .error (.noSuchRow x.number.toNat 64) := by
  have hcell := cell_of_not_onBoard h b.placement
  refine ⟨?_, fun p => ?_, ?_, fun target promotion => ?_, fun s promotion hs => ?_⟩
  · rw [run, StoredBoard.pieceOn, hcell]
    rfl
  · rw [run, StoredBoard.put, write, StoredSquare.locate_of_not_onBoard h]
    rfl
  · rw [run, StoredBoard.take, hcell]
    rfl
  · have horigin : access.read b.placement x = _ := hcell
    rw [run, StoredBoard.play, Access.play, horigin]
    rfl
  · obtain ⟨mover, hmover⟩ := Option.ne_none_iff_exists'.mp hs
    have horigin : access.read b.placement (.ofSquare s) = .ok (some mover) :=
      (access_read _ s).trans (congrArg _ hmover)
    simp only [run, StoredBoard.play, Access.play, horigin, ok_bind, StoredBoard.captured?_of_not_onBoard h]
    rfl

end Call

/-! ## Stored squares -/

theorem toNat_ofNat_toNat {n : Int} (hlow : 0 ≤ n) (hhigh : n < 256) : ((UInt8.ofNat n.toNat).toNat : Int) = n := by
  have hsize : n.toNat < 256 := by omega
  rw [UInt8.toNat_ofNat_of_lt' hsize]
  exact Int.toNat_of_nonneg hlow

/-- What is read as a square is the number of a byte. -/
theorem readSquare_eq_some_iff {v : Value} {x : StoredSquare} : readSquare v = some x ↔ v = .integer x.number.toNat := by
  have hx := x.number.toNat_lt
  constructor
  · intro h
    obtain ⟨n, hn, rfl⟩ := Option.map_eq_some_iff.mp h
    unfold Value.integerWithin? at hn
    split at hn
    · split at hn
      · rename_i hrange
        cases hn
        rw [toNat_ofNat_toNat hrange.1 (by omega)]
      · cases hn
    · cases hn
  · rintro rfl
    have hrange : (0 : Int) ≤ x.number.toNat ∧ (x.number.toNat : Int) ≤ 255 := by omega
    rw [readSquare, Value.integerWithin?, if_pos hrange, Option.map_some, Int.toNat_natCast, UInt8.ofNat_toNat]

/-- The rows of a network are there for every piece exactly on the squares of the board. -/
theorem rowNumber_lt_iff {x : StoredSquare} :
    (∀ piece c, StoredPlaced.rowNumber ⟨piece, x⟩ c < inputSize) ↔ x.OnBoard := by
  constructor
  · intro h
    have hlast : 1 * 384 + 5 * 64 + x.number.toNat < 768 := h ⟨.black, .king⟩ .white
    exact UInt8.lt_iff_toNat_lt.mpr (show x.number.toNat < 64 by omega)
  · intro h piece c
    obtain ⟨s, rfl⟩ := StoredSquare.onBoard_iff.mp h
    have hrow : StoredPlaced.rowNumber ⟨piece, .ofSquare s⟩ c = (⟨piece, s⟩ : PlacedPiece).input c :=
      (StoredPlaced.rowNumber_ofPlaced ⟨piece, s⟩ c).trans (PlacedPiece.rowNumber_eq_input _ c)
    rw [hrow]
    exact Fin.isLt _

/-- No number of a byte is accepted that is no square's. -/
def SparesLarge (accepts : Value → Prop) : Prop := ∀ n : Int, 64 ≤ n → n ≤ 255 → ¬ accepts (.integer n)

section

variable {accepts : Value → Prop}

theorem sparesLarge_iff : SparesLarge accepts ↔ ∀ v x, accepts v → readSquare v = some x → x.OnBoard := by
  constructor
  · intro h v x hv hx
    rw [readSquare_eq_some_iff.mp hx] at hv
    have hlt := x.number.toNat_lt
    by_contra hoff
    have hlarge : 64 ≤ x.number.toNat := Nat.le_of_not_lt fun hlt => hoff (UInt8.lt_iff_toNat_lt.mpr hlt)
    exact h x.number.toNat (by omega) (by omega) hv
  · intro h n hlow hhigh hn
    have hbyte : ((UInt8.ofNat n.toNat).toNat : Int) = n := toNat_ofNat_toNat (by omega) (by omega)
    have hon := h (.integer n) ⟨.ofNat n.toNat⟩ hn (readSquare_eq_some_iff.mpr (by rw [hbyte]))
    have hlt : (UInt8.ofNat n.toNat).toNat < 64 := UInt8.lt_iff_toNat_lt.mp hon
    omega

/-- What a host obtains is of the board as long as what it reads is. -/
theorem Obtained.onBoard (h : SparesLarge accepts) {v : Held} (hv : Obtained accepts v) : v.OnBoard := by
  induction hv with
  | stored hv hx => exact List.forall_mem_singleton.mpr (sparesLarge_iff.mp h _ _ hv hx)
  | @given c _ _ _ hrun hv ih =>
    obtain ⟨vs, hvs, hon⟩ := c.answers ih
    rw [hrun] at hvs
    cases hvs
    exact hon _ hv

theorem obtained_start : Obtained accepts (.board (.ofBoard .start)) :=
  .given (c := .start) (fun _ ha => nomatch ha) rfl (.head _)

end

/-- Everything that a host obtains is on the board, every call that it can make answers, and every piece that it obtains
    has its rows, exactly if it has no number from 64 to 255 read as a square. -/
theorem host_squares_iff (accepts : Value → Prop) :
    ((∀ v, Obtained accepts v → v.OnBoard) ↔ SparesLarge accepts) ∧
    ((∀ c : Call, (∀ a ∈ c.args, Obtained accepts a) → ∃ vs, c.run = .ok vs) ↔ SparesLarge accepts) ∧
    ((∀ p, Obtained accepts (.placed p) → ∀ c, p.rowNumber c < inputSize) ↔ SparesLarge accepts) := by
  refine ⟨⟨fun h => ?_, fun h v hv => hv.onBoard h⟩, ⟨fun h => ?_, fun h c hargs => ?_⟩, fun h => ?_, fun h p hp c => ?_⟩
  · exact sparesLarge_iff.mpr fun v x hv hx => h (.square x) (.stored hv hx) x (.head _)
  · refine sparesLarge_iff.mpr fun v x hv hx => ?_
    have hargs : ∀ a ∈ (Call.pieceOn (.ofBoard .start) x).args, Obtained accepts a :=
      List.forall_mem_cons.mpr ⟨obtained_start, List.forall_mem_singleton.mpr (.stored hv hx)⟩
    obtain ⟨vs, hvs⟩ := h _ hargs
    by_contra hoff
    rw [(Call.faults hoff _).1] at hvs
    cases hvs
  · obtain ⟨vs, hvs, -⟩ := c.answers fun a ha => (hargs a ha).onBoard h
    exact ⟨vs, hvs⟩
  · refine sparesLarge_iff.mpr fun v x hv hx => rowNumber_lt_iff.mp fun piece c => ?_
    have hargs : ∀ a ∈ (Call.stand piece x).args, Obtained accepts a := List.forall_mem_singleton.mpr (.stored hv hx)
    exact h ⟨piece, x⟩ (.given hargs rfl (.head _)) c
  · exact rowNumber_lt_iff.mpr (hp.onBoard h p.square (.head _)) p.piece c

/-- The stored number 64 is read as a square, though the last is 63. No board can be asked
    what stands there, have a piece put or taken there, or moved from or to there; a black king there would have the row
    after the last. -/
theorem a_stored_number_past_h8 :
    readSquare (.integer 64) = some ⟨64⟩ ∧ Obtained (fun _ => True) (.square ⟨64⟩) ∧ ¬ (Held.square ⟨64⟩).OnBoard ∧
    (Call.pieceOn (.ofBoard .start) ⟨64⟩).run = .error (.noSuchRow 64 64) ∧
    (∀ p, (Call.put (.ofBoard .start) ⟨64⟩ p).run = .error (.noSuchRow 64 64)) ∧
    (Call.take (.ofBoard .start) ⟨64⟩).run = .error (.noSuchRow 64 64) ∧
    (∀ x, (Call.play (.ofBoard .start) ⟨⟨64⟩, x, none⟩).run = .error (.noSuchRow 64 64)) ∧
    (Call.play (.ofBoard .start) ⟨.ofSquare (.ofCoords 7 7), ⟨64⟩, none⟩).run = .error (.noSuchRow 64 64) ∧
    ∀ net a, (Call.switch ⟨⟨.black, .king⟩, ⟨64⟩⟩ net a true).run = .error (.noSuchRow 768 768) := by
  have hread : readSquare (.integer 64) = some ⟨64⟩ := by decide
  have hoff : ¬ (⟨64⟩ : StoredSquare).OnBoard := by decide
  have hrook : (Board.start.placement.get (.ofCoords 7 7)) ≠ none := by decide
  obtain ⟨hpieceOn, hput, htake, hfrom, hto⟩ := Call.faults hoff (.ofBoard .start)
  refine ⟨hread, .stored trivial hread, fun h => hoff (h _ (.head _)), hpieceOn, hput, htake, fun x => hfrom x none,
    hto _ none hrook, fun net a => ?_⟩
  have hrow : StoredPlaced.rowNumber ⟨⟨.black, .king⟩, ⟨64⟩⟩ .white = 768 := by decide
  have hupdate : a.update net .white 768 true = .error (.noSuchRow 768 768) := dif_neg (Nat.lt_irrefl 768)
  rw [Call.run, StoredPlaced.switch, hrow, hupdate]
  rfl

end ChessEval.Stored
