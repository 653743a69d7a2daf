/-
  ChessEval.Proofs.Network.Edits — what a list of edits does to an accumulator is its tally.

  An edit (`Edit`) places a piece, lifts one, or applies the change of a move, whether or
  not the pieces were there. The tally of a list of edits counts for each piece how often it
  was placed, less how often it was lifted.

  - `run_eq_shift`: a list of edits acts as its tally.
  - `rowNumber_eq_input`, `runByNumber_eq_ok`: rows worked out as plain numbers are the
    inputs of the pieces, so no edit asks for a row that does not exist.
  - `edits_act_by_tally`: so only the tally counts, in any order; what cancels leaves no
    trace; and the pieces of a position may be visited in any order.
-/

import ChessEval.Proofs.Network.Sums

namespace ChessEval

namespace Accumulator

variable (net : Network) (a : Accumulator)

/-! ## Edits -/

/-- What an accumulator can be asked to do, whether or not the pieces are there. -/
inductive Edit where
  | place (p : PlacedPiece)
  | lift (p : PlacedPiece)
  | apply (c : Change)
  deriving DecidableEq

namespace Edit

def placed : Edit → List PlacedPiece
  | place p => [p]
  | lift _ => []
  | apply c => c.added

def lifted : Edit → List PlacedPiece
  | place _ => []
  | lift p => [p]
  | apply c => c.removed

/-- The edit that takes this one back. -/
def inverse : Edit → Edit
  | place p => lift p
  | lift p => place p
  | apply c => apply ⟨c.added, c.removed⟩

theorem placed_inverse (e : Edit) : e.inverse.placed = e.lifted := by cases e <;> rfl

theorem lifted_inverse (e : Edit) : e.inverse.lifted = e.placed := by cases e <;> rfl

end Edit

def perform (net : Network) (a : Accumulator) : Edit → Accumulator
  | .place p => place net a p
  | .lift p => lift net a p
  | .apply c => apply net a c

def run (net : Network) (a : Accumulator) (edits : List Edit) : Accumulator := edits.foldl (perform net) a

/-- How often each piece was placed, less how often it was lifted. -/
def tally (edits : List Edit) : Tally := .ofList (edits.flatMap Edit.placed) - .ofList (edits.flatMap Edit.lifted)

theorem tally_cons (e : Edit) (edits : List Edit) :
    tally (e :: edits) = tally edits + (.ofList e.placed - .ofList e.lifted) := by
  simp only [tally, List.flatMap_cons, Tally.ofList_append]
  abel

theorem tally_perm {edits edits' : List Edit} (h : edits'.Perm edits) : tally edits' = tally edits := by
  rw [tally, tally, Tally.ofList_perm (h.flatMap_right Edit.placed), Tally.ofList_perm (h.flatMap_right Edit.lifted)]

theorem tally_map_inverse (edits : List Edit) : tally (edits.map Edit.inverse) = -tally edits := by
  simp only [tally, List.flatMap_map, Edit.placed_inverse, Edit.lifted_inverse, neg_sub]

theorem tally_map_place (ps : List PlacedPiece) : tally (ps.map Edit.place) = .ofList ps := by
  have hplaced : (ps.map Edit.place).flatMap Edit.placed = ps := by
    simp [List.flatMap_map, Edit.placed]
  have hlifted : (ps.map Edit.place).flatMap Edit.lifted = [] := by
    simp [Edit.lifted]
  rw [tally, hplaced, hlifted]
  exact sub_zero _

/-- Every edit is the change that records its pieces. -/
theorem perform_eq_apply (e : Edit) : perform net a e = a.apply net ⟨e.lifted, e.placed⟩ := by
  cases e <;> rfl

theorem run_eq_shift (edits : List Edit) : run net a edits = shift net a (tally edits) := by
  induction edits generalizing a with
  | nil => exact (shift_zero net a).symm
  | cons e edits ih =>
    calc run net (perform net a e) edits
        = shift net (perform net a e) (tally edits) := ih _
      _ = shift net (shift net a (.ofList e.placed - .ofList e.lifted)) (tally edits) := by
        rw [perform_eq_apply, apply_eq_shift]
      _ = shift net a (tally (e :: edits)) := by rw [← shift_add, tally_cons]

theorem run_eq_ofPosition {edits : List Edit} {pos : Position} (h : tally edits = .ofList pos.occupied) :
    run net (ofBias net.hiddenBias) edits = ofPosition net pos := by
  rw [run_eq_shift, h, ofPosition_eq_shift]

end Accumulator

/-! ## Rows by number -/

theorem Square.index_flip_eq_xor (s : Square) : s.flip.index.val = s.index.val ^^^ 56 := by
  rcases s with ⟨i⟩
  revert i
  decide

/-- The number of the row of a piece for one side, from the indices of its colour, kind and square. -/
def PlacedPiece.rowNumber (p : PlacedPiece) : Color → Nat
  | .white => p.piece.color.index * colorStride + p.piece.kind.index * kindStride + p.square.index
  | .black => (p.piece.color.index.val ^^^ 1) * colorStride + p.piece.kind.index * kindStride + (p.square.index.val ^^^ 56)

theorem PlacedPiece.rowNumber_eq_input (p : PlacedPiece) (c : Color) : p.rowNumber c = p.input c := by
  rcases p with ⟨⟨color, kind⟩, s⟩
  cases c with
  | white => cases color <;> simp [rowNumber, input, Color.index, Square.seenBy]
  | black => cases color <;> simp [rowNumber, input, Color.index, Square.seenBy, Square.index_flip_eq_xor]

namespace Accumulator

variable (net : Network)

/-- Adds or takes away the rows of a piece by their numbers, White's first. -/
def updateByNumber (add : Bool) (a : Accumulator) (p : PlacedPiece) : Except Fault Accumulator := do
  (← a.update net .white (p.rowNumber .white) add).update net .black (p.rowNumber .black) add

def performByNumber (a : Accumulator) : Edit → Except Fault Accumulator
  | .place p => updateByNumber net true a p
  | .lift p => updateByNumber net false a p
  | .apply c => do c.added.foldlM (updateByNumber net true) (← c.removed.foldlM (updateByNumber net false) a)

def runByNumber (a : Accumulator) (edits : List Edit) : Except Fault Accumulator := edits.foldlM (performByNumber net) a

theorem updateByNumber_eq_ok (add : Bool) (a : Accumulator) (p : PlacedPiece) :
    updateByNumber net add a p = .ok ((if add then place net else lift net) a p) := by
  simp only [updateByNumber, PlacedPiece.rowNumber_eq_input, update, Fin.is_lt, dif_pos]
  cases add <;> rfl

theorem foldlM_updateByNumber (add : Bool) (a : Accumulator) (ps : List PlacedPiece) :
    ps.foldlM (updateByNumber net add) a = .ok (ps.foldl (if add then place net else lift net) a) := by
  have h : updateByNumber net add = fun a p => pure ((if add then place net else lift net) a p) :=
    funext₂ (updateByNumber_eq_ok net add)
  rw [h]
  exact List.foldlM_pure

theorem performByNumber_eq_ok (a : Accumulator) (e : Edit) : performByNumber net a e = .ok (perform net a e) := by
  cases e with
  | place p => exact updateByNumber_eq_ok net true a p
  | lift p => exact updateByNumber_eq_ok net false a p
  | apply c =>
    rw [performByNumber, foldlM_updateByNumber]
    exact foldlM_updateByNumber net true _ c.added

/-- No edit asks for a row that does not exist. -/
theorem runByNumber_eq_ok (a : Accumulator) (edits : List Edit) : runByNumber net a edits = .ok (run net a edits) := by
  have h : performByNumber net = fun a e => pure (perform net a e) := funext₂ (performByNumber_eq_ok net)
  rw [runByNumber, h]
  exact List.foldlM_pure

/-! ## Only the tally counts -/

/-- A list of edits moves an accumulator by its tally, as an element of a commutative group: each lane
    by the weight of every piece times its count, as a signed residue. -/
theorem edits_act_by_tally (a : Accumulator) (edits : List Edit) :
    run net a edits = (action net).vadd (tally edits) a ∧
      (∀ (c : Color) (j : Fin hiddenSize), (((run net a edits).lanes c).get j).toInt =
        (((a.lanes c).get j).toInt + ∑ p, tally edits p * ((net.rows.get (p.input c)).get j).toInt).bmod Int16.size) ∧
      (∀ edits' : List Edit, edits'.Perm edits → run net a edits' = run net a edits) ∧
      (∀ edits' : List Edit, tally edits' = tally edits → run net a edits' = run net a edits) ∧
      (∀ undo : List Edit, tally undo = -tally edits → run net (run net a edits) undo = a) ∧
      (∀ (pos : Position) (visits : List PlacedPiece), visits.Perm pos.occupied →
        run net (ofBias net.hiddenBias) (visits.map Edit.place) = ofPosition net pos) ∧
      runByNumber net a edits = .ok (run net a edits) ∧
      ∀ (p : PlacedPiece) (c : Color), p.rowNumber c < inputSize := by
  have htally : ∀ edits', tally edits' = tally edits → run net a edits' = run net a edits := by
    intro edits' h
    rw [run_eq_shift, run_eq_shift, h]
  refine ⟨run_eq_shift net a edits, ?_, fun edits' h => htally edits' (tally_perm h), htally, ?_, ?_,
    runByNumber_eq_ok net a edits, ?_⟩
  · intro c j
    rw [run_eq_shift]
    exact toInt_lane_shift net a (tally edits) c j
  · intro undo h
    rw [run_eq_shift, run_eq_shift, ← shift_add, h, neg_add_cancel, shift_zero]
  · intro pos visits h
    apply run_eq_ofPosition
    rw [tally_map_place, Tally.ofList_perm h]
  · intro p c
    rw [p.rowNumber_eq_input]
    exact (p.input c).isLt

/-- A pawn placed where every lane is at its greatest wraps them all; lifted again, it leaves no trace. -/
theorem edits_cancel_across_a_wrap :
    let net : Network := { Network.zero with rows := .replicate inputSize (.replicate hiddenSize 20) }
    let a := ofBias (.replicate hiddenSize 32767)
    let edits := [Edit.place ⟨⟨.white, .pawn⟩, ⟨8⟩⟩]
    ((run net a edits).lanes .white)[0] = -32749 ∧ run net (run net a edits) (edits.map Edit.inverse) = a := by
  intro net a edits
  constructor
  · simp only [edits, run, List.foldl_cons, List.foldl_nil, perform, place, lanes, Lanes.getElem_add]
    simp [net, a, ofBias]
  · exact (edits_act_by_tally net a edits).2.2.2.2.1 _ (tally_map_inverse edits)

end Accumulator

end ChessEval
