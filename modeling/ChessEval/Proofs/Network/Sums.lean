/-
  ChessEval.Proofs.Network.Sums — accumulators as sums of rows.

  A tally counts pieces on squares, and a count may be negative. Tallies are a commutative
  group, and they act on accumulators (`shift`): each lane is moved by the weight of every
  piece times its count. Words are residues modulo 2^16, so it is nothing to the action that
  a lane wraps on the way.

  - `shift_zero`, `shift_add`, `action`: it is an action.
  - `apply_eq_shift`: a change acts as what it adds less what it removes.
  - `foldl_place_perm`: the sum does not depend on the order of the pieces.
  - `apply_ofPosition`: a change that balances carries the accumulator of the position
    before over into the accumulator of the position after, lane by lane.
-/

import ChessEval.Network.Basic
import ChessEval.Proofs.Board.Balance
import Mathlib.Algebra.BigOperators.Pi
import Mathlib.Algebra.BigOperators.Ring.Finset
import Mathlib.Data.Fintype.Sigma
import Mathlib.Tactic.DeriveFintype

namespace ChessEval

/-! ## Tallies -/

instance : Fintype Color := ⟨{.white, .black}, by intro c; cases c <;> decide⟩

instance : Fintype Kind := ⟨Kind.all.toFinset, by intro k; cases k <;> decide⟩

deriving instance Fintype for Square

deriving instance Fintype for Piece

deriving instance Fintype for PlacedPiece

/-- How often each piece on each square counts. -/
abbrev Tally := PlacedPiece → Int

/-- What the pieces of a tally add to one lane of one side. -/
def Tally.weigh (g : Tally) (net : Network) (c : Color) (j : Fin hiddenSize) : Int :=
  ∑ p, g p * ((net.rows.get (p.input c)).get j).toInt

namespace Tally

variable (net : Network) (c : Color) (j : Fin hiddenSize)

theorem weigh_zero : weigh 0 net c j = 0 := by
  simp only [weigh, Pi.zero_apply, zero_mul, Finset.sum_const_zero]

theorem weigh_add (g h : Tally) : weigh (g + h) net c j = g.weigh net c j + h.weigh net c j := by
  simp only [weigh, Pi.add_apply, add_mul, Finset.sum_add_distrib]

theorem weigh_single (p : PlacedPiece) (n : Int) :
    weigh (Pi.single p n) net c j = n * ((net.rows.get (p.input c)).get j).toInt := by
  unfold weigh
  rw [Finset.sum_eq_single p]
  · rw [Pi.single_eq_same]
  · intro q _ hq
    rw [Pi.single_eq_of_ne hq, zero_mul]
  · intro hp
    exact absurd (Finset.mem_univ p) hp

/-- How often each piece occurs in a list. -/
def ofList (ps : List PlacedPiece) : Tally := fun p => ps.count p

theorem ofList_cons (p : PlacedPiece) (ps : List PlacedPiece) : ofList (p :: ps) = ofList ps + Pi.single p 1 := by
  funext q
  simp only [ofList, List.count_cons, Pi.add_apply, Pi.single_apply]
  by_cases h : q = p
  · simp [h]
  · simp [h, Ne.symm h]

theorem ofList_append (ps qs : List PlacedPiece) : ofList (ps ++ qs) = ofList ps + ofList qs := by
  funext q
  simp only [ofList, List.count_append, Pi.add_apply, Nat.cast_add]

theorem ofList_perm {ps qs : List PlacedPiece} (h : ps.Perm qs) : ofList ps = ofList qs := by
  funext p
  simp only [ofList, h.count_eq]

end Tally

/-! ## The action -/

namespace Lanes

variable (net : Network) (c : Color) (x : Lanes)

/-- Every lane of one side moved by what the tally weighs there. -/
def shift (g : Tally) : Lanes := .ofFn fun j => Int16.ofInt ((x.get j).toInt + g.weigh net c j)

theorem get_shift (g : Tally) (j : Fin hiddenSize) :
    (x.shift net c g).get j = Int16.ofInt ((x.get j).toInt + g.weigh net c j) :=
  Vector.getElem_ofFn j.isLt

theorem ext_fin {x y : Lanes} (h : ∀ j : Fin hiddenSize, x.get j = y.get j) : x = y :=
  Vector.ext fun i hi => h ⟨i, hi⟩

theorem shift_zero : x.shift net c 0 = x := by
  apply ext_fin
  intro j
  rw [get_shift, Tally.weigh_zero, add_zero, Int16.ofInt_toInt]

theorem shift_add (g h : Tally) : x.shift net c (g + h) = (x.shift net c h).shift net c g := by
  apply ext_fin
  intro j
  rw [get_shift, get_shift, get_shift, Tally.weigh_add]
  simp only [Int16.ofInt_add, Int16.ofInt_toInt]
  rw [Int16.add_comm (Int16.ofInt (g.weigh net c j)), Int16.add_assoc]

theorem add_row (p : PlacedPiece) : x.add net.rows[p.input c] = x.shift net c (Pi.single p 1) := by
  apply ext_fin
  intro j
  rw [get_shift, Tally.weigh_single, one_mul, Int16.ofInt_add, Int16.ofInt_toInt, Int16.ofInt_toInt]
  exact getElem_add _ _ _ j.isLt

theorem sub_row (p : PlacedPiece) : x.sub net.rows[p.input c] = x.shift net c (Pi.single p (-1)) := by
  apply ext_fin
  intro j
  rw [get_shift, Tally.weigh_single, neg_one_mul, Int16.ofInt_add, Int16.ofInt_neg, Int16.ofInt_toInt,
    Int16.ofInt_toInt, ← Int16.sub_eq_add_neg]
  exact getElem_sub _ _ _ j.isLt

end Lanes

namespace Accumulator

variable (net : Network) (a : Accumulator)

/-- The accumulator moved by a tally, on both sides. -/
def shift (g : Tally) : Accumulator := ⟨a.white.shift net .white g, a.black.shift net .black g⟩

theorem lanes_shift (g : Tally) (c : Color) : (shift net a g).lanes c = (a.lanes c).shift net c g := by
  cases c <;> rfl

theorem toInt_lane_shift (g : Tally) (c : Color) (j : Fin hiddenSize) :
    (((shift net a g).lanes c).get j).toInt = (((a.lanes c).get j).toInt + g.weigh net c j).bmod Int16.size := by
  rw [lanes_shift, Lanes.get_shift, Int16.toInt_ofInt]

theorem shift_zero : shift net a 0 = a := by
  simp only [shift, Lanes.shift_zero]

theorem shift_add (g h : Tally) : shift net a (g + h) = shift net (shift net a h) g := by
  simp only [shift, Lanes.shift_add]

/-- Tallies act on the accumulators of a network. -/
@[reducible]
def action : AddAction Tally Accumulator where
  vadd g a := shift net a g
  zero_vadd := shift_zero net
  add_vadd g h a := shift_add net a g h

theorem place_eq_shift (p : PlacedPiece) : place net a p = shift net a (Pi.single p 1) := by
  simp only [place, shift, Lanes.add_row]

theorem lift_eq_shift (p : PlacedPiece) : lift net a p = shift net a (Pi.single p (-1)) := by
  simp only [lift, shift, Lanes.sub_row]

theorem foldl_place_eq_shift (ps : List PlacedPiece) : ps.foldl (place net) a = shift net a (.ofList ps) := by
  induction ps generalizing a with
  | nil => exact (shift_zero net a).symm
  | cons p ps ih => rw [List.foldl_cons, ih, place_eq_shift, ← shift_add, Tally.ofList_cons]

theorem foldl_lift_eq_shift (ps : List PlacedPiece) : ps.foldl (lift net) a = shift net a (-.ofList ps) := by
  induction ps generalizing a with
  | nil => exact (shift_zero net a).symm
  | cons p ps ih => rw [List.foldl_cons, ih, lift_eq_shift, ← shift_add, Tally.ofList_cons, neg_add, Pi.single_neg]

theorem apply_eq_shift (c : Change) : a.apply net c = shift net a (.ofList c.added - .ofList c.removed) := by
  rw [apply, foldl_lift_eq_shift, foldl_place_eq_shift, ← shift_add, sub_eq_add_neg]

theorem foldl_place_perm {ps qs : List PlacedPiece} (h : ps.Perm qs) (a : Accumulator) :
    ps.foldl (place net) a = qs.foldl (place net) a := by
  rw [foldl_place_eq_shift, foldl_place_eq_shift, Tally.ofList_perm h]

theorem ofPosition_eq_shift (pos : Position) :
    ofPosition net pos = shift net (ofBias net.hiddenBias) (.ofList pos.occupied) :=
  foldl_place_eq_shift net _ pos.occupied

/-- A change that balances leads from the accumulator of one position to that of the other. -/
theorem apply_ofPosition {c : Change} {before after : Position} (h : c.Balances before after) :
    (ofPosition net before).apply net c = ofPosition net after := by
  have hperm : (after.occupied ++ c.removed).Perm (before.occupied ++ c.added) := Multiset.coe_eq_coe.mp h
  have hsum : Tally.ofList after.occupied + .ofList c.removed = .ofList before.occupied + .ofList c.added := by
    rw [← Tally.ofList_append, ← Tally.ofList_append, Tally.ofList_perm hperm]
  have hafter : Tally.ofList c.added - .ofList c.removed + .ofList before.occupied = .ofList after.occupied := by
    rw [eq_sub_of_add_eq hsum]
    abel
  rw [ofPosition_eq_shift, ofPosition_eq_shift, apply_eq_shift, ← shift_add, hafter]

end Accumulator

end ChessEval
