/-
  ChessEval.Proofs.Score.Standard — the adjustments under the default tuning, on any board.

  A board has at most a queen on each of its 64 squares. That bounds the material
  (`Context.OnBoard`), and with it every stage of an adjustment: nothing comes near
  the ends of the 32 bits.

  - `ofPosition_onBoard`: what an adjustment is told of a position is within these bounds.
  - `excess_standard`, `scaled_standard`, `faded_standard`: the stages with the default values in them.
  - `boosted_bounds`, `abs_scaled_le`, `abs_unfaded_le`: so the score with its bonuses, the scaled
    score and the one with contempt are bounded.
-/

import ChessEval.Line.Basic
import ChessEval.Proofs.Score.Fading

namespace ChessEval

/-! ## Material on a board -/

namespace Material

theorem value_bounds (k : Kind) : 0 ≤ k.value ∧ k.value ≤ Kind.queen.value := by
  cases k <;> decide

theorem add_bounds (m : Material) (p : Piece) :
    m.white ≤ (m.add p).white ∧ m.black ≤ (m.add p).black ∧ (m.add p).total ≤ m.total + Kind.queen.value := by
  obtain ⟨c, k⟩ := p
  obtain ⟨hlow, hhigh⟩ := value_bounds k
  cases c <;> simp only [add, total] <;> omega

theorem foldl_add_bounds (ps : List PlacedPiece) (m : Material) :
    m.white ≤ (ps.foldl (fun m p => m.add p.piece) m).white ∧ m.black ≤ (ps.foldl (fun m p => m.add p.piece) m).black ∧
      (ps.foldl (fun m p => m.add p.piece) m).total ≤ m.total + ps.length * Kind.queen.value := by
  induction ps generalizing m with
  | nil => simp
  | cons p ps ih =>
    obtain ⟨hw, hb, ht⟩ := add_bounds m p.piece
    obtain ⟨hw', hb', ht'⟩ := ih (m.add p.piece)
    simp only [List.foldl_cons, List.length_cons, Nat.cast_succ, add_mul]
    omega

/-- The material of a board with a queen on every square. -/
def most : Int := 64 * Kind.queen.value

theorem length_occupied_le (pos : Position) : pos.occupied.length ≤ 64 := by
  have hsquares : Square.all.length = 64 := by simp [Square.all]
  rw [← hsquares]
  exact List.length_filterMap_le _ _

theorem ofPosition_bounds (pos : Position) :
    0 ≤ (ofPosition pos).white ∧ 0 ≤ (ofPosition pos).black ∧ (ofPosition pos).total ≤ most := by
  obtain ⟨hw, hb, ht⟩ := foldl_add_bounds pos.occupied zero
  have hlength := length_occupied_le pos
  refine ⟨hw, hb, le_trans ht ?_⟩
  simp only [zero, total, most, Kind.value]
  omega

end Material

/-- Material as boards can have it, now and at the root. -/
structure Context.OnBoard (c : Context) : Prop where
  total_le : c.total ≤ Material.most
  behind : -c.total ≤ c.advantage
  ahead : c.advantage ≤ c.total
  root : |c.rootAdvantage| ≤ Material.most

theorem Material.advantage_bounds (pos : Position) (side : Color) :
    -(ofPosition pos).total ≤ (ofPosition pos).advantage side ∧ (ofPosition pos).advantage side ≤ (ofPosition pos).total := by
  obtain ⟨hw, hb, -⟩ := ofPosition_bounds pos
  cases side <;> simp only [total, advantage] <;> omega

theorem Context.ofPosition_onBoard (pos : Position) (ply : Nat) (root : Position) :
    (ofPosition pos ply (Line.advantageOf root)).OnBoard := by
  obtain ⟨-, -, ht⟩ := Material.ofPosition_bounds pos
  obtain ⟨hb, ha⟩ := Material.advantage_bounds pos pos.sideToMove
  obtain ⟨-, -, hroot⟩ := Material.ofPosition_bounds root
  obtain ⟨hrootb, hroota⟩ := Material.advantage_bounds root root.sideToMove
  exact ⟨ht, hb, ha, abs_le.mpr ⟨(neg_le_neg hroot).trans hrootb, hroota.trans hroot⟩⟩

namespace Score

theorem isDecisive_iff {score : Int} : isDecisive score = true ↔ tablebaseWinAtMaxPly ≤ |score| := by
  simp only [isDecisive, Bool.or_eq_true, decide_eq_true_eq, le_abs]
  omega

theorem sacrificeBonus_bounds (score : Int) (c : Context) :
    0 ≤ sacrificeBonus score c {} ∧ sacrificeBonus score c {} ≤ 80 := by
  unfold sacrificeBonus
  split_ifs <;> decide

theorem sacrificeBonus_of_nonpos {score : Int} (h : score ≤ 0) (c : Context) : sacrificeBonus score c {} = 0 := by
  unfold sacrificeBonus draw
  split_ifs <;> simp only at * <;> omega

theorem contempt_bounds (advantage : Int) : |contempt advantage {}| ≤ 50 := by
  unfold contempt
  split_ifs <;> decide

end Score

namespace Tuning

open Score (isDecisive tablebaseWinAtMaxPly)

variable {raw : Int} {c : Context}

/-! ## The stages -/

/-- A tenth of what goes beyond the threshold, and 25. -/
theorem excess_standard (score advantage : Int) :
    Tuning.excess {} score advantage =
      if 0 < score ∧ advantage + 50 < score then 25 + (score - advantage - 50) / 10
      else if score < 0 ∧ score < advantage - 50 then -(25 + (advantage - score - 50) / 10)
      else 0 := by
  unfold excess reward
  dsimp only
  split
  · rw [Int.tdiv_eq_ediv_of_nonneg (by omega)]
  · split
    · rw [Int.tdiv_eq_ediv_of_nonneg (by omega)]
    · rfl

/-- The score times 750 and a twenty-fifth of all material, over 1024. -/
theorem scaled_standard (score total : Int) : Tuning.scaled {} score total = (score * (18750 + total)).tdiv 25600 := rfl

theorem faded_standard (score : Int) (clock : Nat) :
    Tuning.faded {} score clock = (score * (200 - clock : Nat)).tdiv 200 :=
  faded_eq_share (by decide) score clock

/-! ## Their bounds -/

/-- A score that is not decisive gains at most a tenth of itself and of all material, 25 and 80. -/
theorem boosted_bounds (hc : c.OnBoard) (h : isDecisive raw = false) : |Tuning.boosted {} raw c| ≤ 40494 := by
  obtain ⟨ht, hb, ha, -⟩ := hc
  obtain ⟨hs, hs'⟩ := Score.sacrificeBonus_bounds raw c
  have hraw : ¬ tablebaseWinAtMaxPly ≤ |raw| := fun hle => by
    rw [Score.isDecisive_iff.mpr hle] at h
    cases h
  have hraw' : |raw| < 31487 := not_le.mp hraw
  obtain ⟨hlow, hhigh⟩ := abs_lt.mp hraw'
  have hmost : Material.most = 57600 := rfl
  rw [boosted, excess_standard, abs_le]
  split_ifs <;> omega

theorem abs_scaled_le (hc : c.OnBoard) {score bound : Int} (h : |score| ≤ bound) :
    |Tuning.scaled {} score c.total| ≤ bound * 76350 / 25600 := by
  obtain ⟨ht, hb, ha, -⟩ := hc
  have hmost : Material.most = 57600 := rfl
  have hfactor : |18750 + c.total| ≤ 76350 := by rw [abs_of_nonneg] <;> omega
  rw [scaled_standard, abs_tdiv (by decide), abs_mul]
  exact Int.ediv_le_ediv (by decide) (mul_le_mul h hfactor (abs_nonneg _) ((abs_nonneg _).trans h))

theorem abs_unfaded_le (hc : c.OnBoard) {bound : Int} (h : |Tuning.boosted {} raw c| ≤ bound) :
    |Tuning.unfaded {} raw c| ≤ bound * 76350 / 25600 + 50 :=
  calc |Tuning.unfaded {} raw c| ≤ |Tuning.scaled {} (Tuning.boosted {} raw c) c.total| + |Score.contempt c.advantage {}| :=
        abs_add_le _ _
    _ ≤ bound * 76350 / 25600 + 50 := add_le_add (abs_scaled_le hc h) (Score.contempt_bounds _)

end Tuning

end ChessEval
