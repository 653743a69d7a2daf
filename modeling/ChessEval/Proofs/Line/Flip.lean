/-
  ChessEval.Proofs.Line.Flip — a line takes no side.

  Flipping a position gives each piece to the other side, turns the board around and gives
  the other side the move. Flipped is what a line holds if the two halves of each
  accumulator are exchanged (`Line.flip`), and nothing else.

  - `occupied_flip`: the pieces of the flipped placement are the pieces flipped, though in
    another order; sums over them do not depend on the order.
  - `ofPosition_flip`, `apply_flip`, `evaluate_swap`: so accumulators come out with their
    halves exchanged, built anew or carried on, and score the same for the other side.
  - `call_flip`: a flipped line, called on what is flipped, faults alike, or answers alike
    and is the flipped line again.
  - `flipped_course`: so two lines, one on what is flipped, are seen alike all along except
    for the exchanged halves. Only the two ends of the stack can stop them.
-/

import ChessEval.Proofs.Line.Course

namespace ChessEval

/-! ## Pieces -/

theorem Square.map_flip_all : (Square.all.map Square.flip).Perm Square.all := by
  have hinjective : Function.Injective Square.flip := fun s t h => by
    rw [← Square.flip_flip s, h, Square.flip_flip]
  refine (List.perm_ext_iff_of_nodup (Placement.nodup_all.map hinjective) Placement.nodup_all).mpr fun s => ?_
  simp only [Square.mem_all, iff_true]
  exact List.mem_map.mpr ⟨s.flip, Square.mem_all _, Square.flip_flip s⟩

theorem Placement.occupied_flip (p : Placement) : p.flip.occupied.Perm (p.occupied.map PlacedPiece.flip) := by
  -- the flipped pieces in their old order are those of the flipped placement, its squares taken in flipped order
  let seen (s : Square) : Option PlacedPiece := (p.flip.get s).map (⟨·, s⟩)
  have hseen : ∀ s, seen s.flip = ((p.get s).map (⟨·, s⟩)).map PlacedPiece.flip := by
    intro s
    simp only [seen, Placement.flip, Placement.get_ofFn, Square.flip_flip, Option.map_map]
    rfl
  have hmap : p.occupied.map PlacedPiece.flip = (Square.all.map Square.flip).filterMap seen := by
    rw [occupied, List.map_filterMap, List.filterMap_map]
    apply List.filterMap_congr
    intro s _
    rw [Function.comp_apply, hseen]
  rw [hmap]
  exact (Square.map_flip_all.filterMap seen).symm

/-! ## Accumulators -/

namespace Accumulator

variable (net : Network)

theorem lanes_swap (a : Accumulator) (c : Color) : a.swap.lanes c = a.lanes c.opponent := by
  cases c <;> rfl

theorem place_flip (a : Accumulator) (p : PlacedPiece) : place net a.swap p.flip = (place net a p).swap := by
  simp only [place, swap, PlacedPiece.input_flip, Color.opponent]

theorem lift_flip (a : Accumulator) (p : PlacedPiece) : lift net a.swap p.flip = (lift net a p).swap := by
  simp only [lift, swap, PlacedPiece.input_flip, Color.opponent]

theorem foldl_place_flip (ps : List PlacedPiece) (a : Accumulator) :
    (ps.map PlacedPiece.flip).foldl (place net) a.swap = (ps.foldl (place net) a).swap := by
  rw [List.foldl_map]
  exact List.foldl_hom swap (place_flip net)

theorem foldl_lift_flip (ps : List PlacedPiece) (a : Accumulator) :
    (ps.map PlacedPiece.flip).foldl (lift net) a.swap = (ps.foldl (lift net) a).swap := by
  rw [List.foldl_map]
  exact List.foldl_hom swap (lift_flip net)

theorem apply_flip (a : Accumulator) (c : Change) : a.swap.apply net c.flip = (a.apply net c).swap := by
  simp only [apply, Change.flip, foldl_lift_flip, foldl_place_flip]

theorem ofPosition_flip (pos : Position) : ofPosition net pos.flip = (ofPosition net pos).swap := by
  calc ofPosition net pos.flip
      = (pos.occupied.map PlacedPiece.flip).foldl (place net) (ofBias net.hiddenBias) :=
        foldl_place_perm net pos.placement.occupied_flip _
    _ = (ofPosition net pos).swap := foldl_place_flip net pos.occupied (ofBias net.hiddenBias)

end Accumulator

theorem Network.evaluate_swap (net : Network) (a : Accumulator) (c : Color) :
    net.evaluate a.swap c.opponent = net.evaluate a c := by
  simp only [Network.evaluate, Accumulator.lanes_swap, Color.opponent_opponent]

/-! ## Material -/

namespace Material

/-- The sides exchanged. -/
def swap (m : Material) : Material := ⟨m.black, m.white⟩

theorem add_recolored (m : Material) (p : Piece) : m.swap.add p.recolored = (m.add p).swap := by
  obtain ⟨c, k⟩ := p
  cases c <;> rfl

theorem add_right_comm (m : Material) (p q : Piece) : (m.add p).add q = (m.add q).add p := by
  obtain ⟨c, k⟩ := p
  obtain ⟨c', k'⟩ := q
  cases c <;> cases c' <;> simp only [add, Int.add_right_comm]

theorem foldl_add_flip (ps : List PlacedPiece) (m : Material) :
    (ps.map PlacedPiece.flip).foldl (fun m p => m.add p.piece) m.swap = (ps.foldl (fun m p => m.add p.piece) m).swap := by
  rw [List.foldl_map]
  exact List.foldl_hom swap fun m p => add_recolored m p.piece

theorem ofPosition_flip (pos : Position) : ofPosition pos.flip = (ofPosition pos).swap := by
  calc ofPosition pos.flip
      = (pos.occupied.map PlacedPiece.flip).foldl (fun m p => m.add p.piece) zero :=
        pos.placement.occupied_flip.foldl_eq' (fun p _ q _ m => add_right_comm m p.piece q.piece) zero
    _ = (ofPosition pos).swap := foldl_add_flip pos.occupied zero

theorem total_swap (m : Material) : m.swap.total = m.total := Int.add_comm _ _

theorem advantage_swap (m : Material) (c : Color) : m.swap.advantage c.opponent = m.advantage c := by
  cases c <;> rfl

end Material

theorem Line.advantageOf_flip (pos : Position) : advantageOf pos.flip = advantageOf pos := by
  rw [advantageOf, Material.ofPosition_flip]
  exact Material.advantage_swap _ _

theorem Context.ofPosition_flip (pos : Position) (ply : Nat) (rootAdvantage : Int) :
    ofPosition pos.flip ply rootAdvantage = ofPosition pos ply rootAdvantage := by
  have htotal : (Material.ofPosition pos.flip).total = (Material.ofPosition pos).total := by
    rw [Material.ofPosition_flip, Material.total_swap]
  have hadvantage : (Material.ofPosition pos.flip).advantage pos.flip.sideToMove =
      (Material.ofPosition pos).advantage pos.sideToMove := Line.advantageOf_flip pos
  have hclock : pos.flip.halfmoveClock = pos.halfmoveClock := by simp only [Position.flip]
  simp only [ofPosition, htotal, hadvantage, hclock]

/-! ## The stack -/

def Slot.flip (s : Slot) : Slot := { s with accumulator := s.accumulator.swap }

namespace PlyStack

def flip (s : PlyStack) : PlyStack := { s with slots := s.slots.map Slot.flip }

theorem slotOf_flip (n : PhaseNetworks) (pos : Position) (phase : Phase) :
    slotOf n pos.flip phase = (slotOf n pos phase).flip := by
  rw [slotOf, Accumulator.ofPosition_flip]
  rfl

theorem current_flip (s : PlyStack) : s.flip.current = s.current.flip :=
  Vector.getElem_map Slot.flip s.top.isLt

theorem replace_flip (s : PlyStack) (slot : Slot) : s.flip.replace slot.flip = (s.replace slot).flip := by
  simp only [replace, flip, Vector.map_set]

theorem advance_flip (s : PlyStack) (slot : Slot) : s.flip.advance slot.flip = (s.advance slot).map flip := by
  by_cases hroom : s.top + 1 < slotCount
  · rw [advance, advance, dif_pos hroom, dif_pos (show s.flip.top + 1 < slotCount from hroom)]
    simp only [flip, Vector.map_set, Except.map]
  · rw [advance, advance, dif_neg hroom, dif_neg (show ¬ s.flip.top + 1 < slotCount from hroom)]
    rfl

theorem pop_flip (s : PlyStack) : s.flip.pop = s.pop.map flip := by
  by_cases hpos : 0 < s.top.val
  · rw [pop, pop, if_pos hpos, if_pos (show 0 < s.flip.top.val from hpos)]
    rfl
  · rw [pop, pop, if_neg hpos, if_neg (show ¬ 0 < s.flip.top.val from hpos)]
    rfl

theorem ofRoot_flip (root : Slot) : (ofRoot root).flip = ofRoot root.flip := by
  simp only [ofRoot, flip, Vector.map_replicate]

theorem reset_flip (s : PlyStack) (root : Slot) : (s.reset root).flip = s.flip.reset root.flip := by
  simp only [reset, flip, Vector.map_set]

end PlyStack

/-! ## The line -/

namespace Line

def flip (l : Line) : Line := { l with stack := l.stack.flip }

theorem start_flip (n : PhaseNetworks) (pos : Position) (t : Tuning) : start n pos.flip t = (start n pos t).flip := by
  simp only [start, flip, PlyStack.slotOf_flip, PlyStack.ofRoot_flip, advantageOf_flip]

theorem restart_flip (l : Line) (pos : Position) : l.flip.restart pos.flip = (l.restart pos).flip := by
  simp only [restart, flip, PlyStack.slotOf_flip, PlyStack.reset_flip, advantageOf_flip]

theorem fresh_flip (l : Line) : l.flip.stack.current.phase = l.flip.phase ↔ l.stack.current.phase = l.phase := by
  have hcurrent : l.flip.stack.current = l.stack.current.flip := l.stack.current_flip
  rw [hcurrent]
  rfl

theorem pushed_flip (l : Line) (pos : Position) (c : Change) : l.flip.pushed pos.flip c.flip = (l.pushed pos c).flip := by
  unfold pushed
  by_cases hphase : l.stack.current.phase = l.phase
  · have hcurrent : l.flip.stack.current = l.stack.current.flip := l.stack.current_flip
    rw [if_pos hphase, if_pos (l.fresh_flip.mpr hphase), hcurrent]
    exact congrArg (Slot.mk · _) (Accumulator.apply_flip _ _ _)
  · rw [if_neg hphase, if_neg (mt l.fresh_flip.mp hphase)]
    exact PlyStack.slotOf_flip _ _ _

theorem sync_flip (l : Line) (pos : Position) : l.flip.sync pos.flip = (l.sync pos).flip := by
  unfold sync
  by_cases hphase : l.stack.current.phase = l.phase
  · rw [if_pos hphase, if_pos (l.fresh_flip.mpr hphase)]
  · rw [if_neg hphase, if_neg (mt l.fresh_flip.mp hphase)]
    simp only [flip, PlyStack.rebuild, PlyStack.slotOf_flip, PlyStack.replace_flip]

theorem rawScore_flip (l : Line) (pos : Position) : l.flip.rawScore pos.flip = l.rawScore pos := by
  have haccumulator : l.flip.accumulator = l.accumulator.swap := congrArg Slot.accumulator l.stack.current_flip
  rw [rawScore, haccumulator]
  exact Network.evaluate_swap _ _ _

theorem detect_flip (l : Line) (pos : Position) (depth : Int) :
    l.flip.detect pos.flip depth = (l.detect pos depth).flip := by
  have hwatch : Id.run (l.flip.watch.detect depth l.flip.tuning (l.flip.rawScore pos.flip)) =
      Id.run (l.watch.detect depth l.tuning (l.rawScore pos)) := by
    rw [rawScore_flip]
    rfl
  rcases hasked : Id.run (l.watch.detect depth l.tuning (l.rawScore pos)) with ⟨_ | phase, watch⟩
  · rw [detect_of_unasked hasked, detect_of_unasked (hwatch.trans hasked)]
    rfl
  · by_cases hphase : phase = l.phase
    · subst hphase
      rw [detect_of_kept hasked, detect_of_kept (hwatch.trans hasked)]
      rfl
    · rw [detect_of_switch hasked hphase, detect_of_switch (hwatch.trans hasked) hphase]
      simp only [flip, PlyStack.rebuild, PlyStack.slotOf_flip, PlyStack.replace_flip]

theorem evaluate_flip (l : Line) (pos : Position) (depth : Int) (ply : Nat) :
    l.flip.evaluate pos.flip depth ply = ((l.evaluate pos depth ply).1, (l.evaluate pos depth ply).2.flip) := by
  unfold evaluate
  simp only [sync_flip, detect_flip, rawScore_flip, Context.ofPosition_flip]
  rfl

end Line

/-! ## Calls -/

/-- The same call about what is flipped. -/
def Call.flip : Call → Call
  | .push pos c => .push pos.flip c.flip
  | .pop => .pop
  | .evaluate pos depth ply => .evaluate pos.flip depth ply
  | .restart pos => .restart pos.flip

/-- The same view with the halves of the accumulator exchanged. -/
def View.flip (v : View) : View := { v with accumulator := v.accumulator.swap }

namespace Line

theorem view_flip (l : Line) : l.flip.view = l.view.flip := by
  have hcurrent : l.flip.stack.current = l.stack.current.flip := l.stack.current_flip
  rw [view, accumulator, hcurrent]
  rfl

theorem call_flip (l : Line) (c : Call) : Alike (fun l l' => l' = l.flip) (l.call c) (l.flip.call c.flip) := by
  cases c with
  | push pos c =>
    simp only [Call.flip, call, push_eq_advance, pushed_flip]
    have hadvance : l.flip.stack.advance (l.pushed pos c).flip = (l.stack.advance (l.pushed pos c)).map .flip :=
      l.stack.advance_flip _
    rw [hadvance]
    cases l.stack.advance (l.pushed pos c) with
    | error f => exact rfl
    | ok s => exact ⟨rfl, rfl⟩
  | pop =>
    have hpop : l.flip.stack.pop = l.stack.pop.map .flip := l.stack.pop_flip
    simp only [Call.flip, call, pop, hpop]
    cases l.stack.pop with
    | error f => exact rfl
    | ok s => exact ⟨rfl, rfl⟩
  | evaluate pos depth ply =>
    simp only [Call.flip, call, evaluate_flip]
    cases (l.evaluate pos depth ply).1 with
    | error f => exact rfl
    | ok tr => exact ⟨rfl, rfl⟩
  | restart pos => exact ⟨rfl, l.restart_flip pos⟩

theorem course_flip (l : Line) (calls : List Call) :
    l.flip.course (calls.map Call.flip) = (l.course calls).mapView View.flip :=
  course_simulates (R := fun l l' => l' = l.flip) (fun l _ h => h ▸ l.view_flip) (fun l _ c h => h ▸ l.call_flip c) rfl
    calls

/-- A line and one on what is flipped are seen alike, at the start and after every call: they
    answer with the same traces and are of the same phase, ply, depth and advantage, and
    their accumulators have the halves exchanged. Every position is scored until a call
    goes beyond an end of the stack, which happens to both at once. -/
theorem flipped_course (n : PhaseNetworks) (t : Tuning) (pos : Position) (calls : List Call) (ht : t.NonzeroDivisors) :
    (start n pos.flip t).view = (start n pos t).view.flip ∧
      (start n pos.flip t).course (calls.map Call.flip) = ((start n pos t).course calls).mapView View.flip ∧
      ∀ f, ((start n pos t).course calls).fault = some f → f = .stackFull ∨ f = .stackAtRoot := by
  rw [start_flip]
  exact ⟨view_flip _, course_flip _ calls, fun f hf => course_fault ht hf⟩

/-- A change that matches no position is flipped like any other, and the second taking back
    goes beyond the root. -/
theorem flipped_course_to_the_root :
    let t : Tuning := { sacrificeMargin := -1 }
    let pos : Position := Board.start.toPosition
    let pawn : PlacedPiece := ⟨⟨.white, .pawn⟩, .ofCoords 1 4⟩
    let calls : List Call := [.push Board.empty.toPosition ⟨[pawn], []⟩, .evaluate pos 6 1, .pop, .pop]
    t.NonzeroDivisors ∧ (start .zero pos.flip t).view = (start .zero pos t).view.flip ∧
      (start .zero pos.flip t).course (calls.map Call.flip) = ((start .zero pos t).course calls).mapView View.flip ∧
      ∀ f, ((start .zero pos t).course calls).fault = some f → f = .stackFull ∨ f = .stackAtRoot := by
  intro t pos pawn calls
  have ht : t.NonzeroDivisors := ⟨by decide, by decide, by decide⟩
  exact ⟨ht, flipped_course .zero t pos calls ht⟩

end Line

end ChessEval
