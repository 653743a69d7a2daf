/-
  ChessEval.Proofs.Score.Range — under the default tuning no adjustment overflows on a board.

  What a position tells an adjustment stays within 57600, the value of a queen on each
  square. From there on every operation has room to spare, so the adjustment in words
  answers, and answers as the library does.

  - `Faithful.context_eq`: the material of a board is counted right, in any words.
  - `checked_onBoard`, `trace_onBoard`: every stage of an adjustment fits its word, so the
    library's adjustment is plain integers throughout.
  - `scaled_eq_cut`: the scaled score is one fraction, cut once.
  - `adjustment_fits_on_board`: all this for any board, any ply and any raw score, with the
    final score within 120820 unless the raw one passed untouched.
-/

import ChessEval.Proofs.Score.Standard

namespace ChessEval

namespace Arithmetic

theorem fits32 {n : Int} (hlow : -2147483648 ≤ n) (hhigh : n ≤ 2147483647) : Fits Int32.size n := by
  constructor <;> (simp only [Int32.size]; omega)

/-! ## Material -/

namespace Faithful

variable {w : Arithmetic} (hw : w.Faithful)

include hw

theorem add_eq {m : Material} (hwhite : 0 ≤ m.white) (hblack : 0 ≤ m.black)
    (ht : m.total + Kind.queen.value ≤ Material.most) (p : Piece) : w.add m p = .ok (m.add p) := by
  obtain ⟨c, k⟩ := p
  obtain ⟨hlow, hhigh⟩ := Material.value_bounds k
  have hmost : Material.most = 57600 := rfl
  rw [Material.total] at ht
  cases c with
  | white =>
    have hfits : Fits Int32.size (m.white + k.value) := fits32 (by omega) (by omega)
    simp only [add, hw.keep hfits]
    rfl
  | black =>
    have hfits : Fits Int32.size (m.black + k.value) := fits32 (by omega) (by omega)
    simp only [add, hw.keep hfits]
    rfl

theorem foldlM_add (ps : List PlacedPiece) {m : Material} (hwhite : 0 ≤ m.white) (hblack : 0 ≤ m.black)
    (ht : m.total + ps.length * 900 ≤ Material.most) :
    ps.foldlM (fun m p => w.add m p.piece) m = .ok (ps.foldl (fun m p => m.add p.piece) m) := by
  induction ps generalizing m with
  | nil => rfl
  | cons p ps ih =>
    obtain ⟨hwhite', hblack', ht'⟩ := Material.add_bounds m p.piece
    have hqueen : Kind.queen.value = 900 := rfl
    rw [List.length_cons, Nat.cast_succ] at ht
    have hadd : w.add m p.piece = .ok (m.add p.piece) := hw.add_eq hwhite hblack (by omega) p.piece
    rw [List.foldlM_cons, hadd]
    exact ih (by omega) (by omega) (by omega)

theorem material_eq (pos : Position) : w.material pos = .ok (Material.ofPosition pos) := by
  refine hw.foldlM_add pos.occupied le_rfl le_rfl ?_
  have hlength := Material.length_occupied_le pos
  simp only [Material.zero, Material.total, Material.most, Kind.value]
  omega

/-- Whatever becomes of results that do not fit, the material of a board is counted right. -/
theorem context_eq (pos : Position) (ply : Nat) (rootAdvantage : Int) :
    w.context pos ply rootAdvantage = .ok (Context.ofPosition pos ply rootAdvantage) := by
  obtain ⟨hwhite, hblack, ht⟩ := Material.ofPosition_bounds pos
  have hmost : Material.most = 57600 := rfl
  rw [Material.total] at ht
  have htotal : Fits Int32.size ((Material.ofPosition pos).white + (Material.ofPosition pos).black) :=
    fits32 (by omega) (by omega)
  have hadvantage : w.advantage (Material.ofPosition pos) pos.sideToMove =
      .ok ((Material.ofPosition pos).advantage pos.sideToMove) := by
    cases pos.sideToMove with
    | white => exact hw.keep (fits32 (by omega) (by omega))
    | black => exact hw.keep (fits32 (by omega) (by omega))
  simp only [context, hw.material_eq, ok_bind, hw.keep htotal, hadvantage]
  rfl

end Faithful

/-! ## Adjustments -/

open Score (isDecisive)

variable {raw : Int} {c : Context}

theorem raw_bounds (h : isDecisive raw = false) : -31487 < raw ∧ raw < 31487 := by
  simp only [isDecisive, Bool.or_eq_false_iff, decide_eq_false_iff_not] at h
  have htablebase : Score.tablebaseWinAtMaxPly = 31487 := rfl
  omega

theorem reward_onBoard {lead : Int} (hlow : 50 < lead) (hhigh : lead ≤ 100000) :
    checked.reward lead {} = .ok (Tuning.reward {} lead) := by
  have hshare : (lead - 50).tdiv 10 = (lead - 50) / 10 := Int.tdiv_eq_ediv_of_nonneg (by omega)
  have hbeyond : Fits Int32.size (lead - 50) := fits32 (by omega) (by omega)
  have hshare' : Fits Int32.size ((lead - 50).tdiv 10) := by
    rw [hshare]
    exact fits32 (by omega) (by omega)
  have hreward : Fits Int32.size (25 + (lead - 50).tdiv 10) := by
    rw [hshare]
    exact fits32 (by omega) (by omega)
  rw [reward, checked_keep_bind hbeyond, checked_quotient (by decide) hshare', ok_bind]
  exact trap_of_fits hreward

theorem excessBonus_onBoard (hc : c.OnBoard) (h : isDecisive raw = false) :
    checked.excessBonus raw c.advantage {} = .ok (Tuning.excess {} raw c.advantage) := by
  obtain ⟨ht, hb, ha, -⟩ := hc
  obtain ⟨hlow, hhigh⟩ := raw_bounds h
  have hmost : Material.most = 57600 := rfl
  have hbar : Fits Int32.size (c.advantage + 50) := fits32 (by omega) (by omega)
  have hbar' : Fits Int32.size (c.advantage - 50) := fits32 (by omega) (by omega)
  have hlead : Fits Int32.size (raw - c.advantage) := fits32 (by omega) (by omega)
  have hlead' : Fits Int32.size (c.advantage - raw) := fits32 (by omega) (by omega)
  unfold excessBonus Tuning.excess
  simp only [checked_keep_bind hbar, checked_keep_bind hbar', checked_keep_bind hlead, checked_keep_bind hlead']
  by_cases hpos : 0 < raw
  · by_cases hover : c.advantage + 50 < raw
    · rw [if_pos hpos, if_pos hover, if_pos ⟨hpos, hover⟩]
      exact reward_onBoard (by omega) (by omega)
    · rw [if_pos hpos, if_neg hover, if_neg (by omega), if_neg (by omega)]
      rfl
  · by_cases hneg : raw < 0
    · by_cases hover : raw < c.advantage - 50
      · have hreward : Tuning.reward {} (c.advantage - raw) = 25 + (c.advantage - raw - 50) / 10 := by
          rw [Tuning.reward, Int.tdiv_eq_ediv_of_nonneg (by dsimp only; omega)]
        rw [if_neg hpos, if_pos hneg, if_pos hover, if_neg (by omega), if_pos ⟨hneg, hover⟩,
          reward_onBoard (by omega) (by omega), ok_bind, hreward]
        exact trap_of_fits (fits32 (by omega) (by omega))
      · rw [if_neg hpos, if_pos hneg, if_neg hover, if_neg (by omega), if_neg (by omega)]
        rfl
    · rw [if_neg hpos, if_neg hneg, if_neg (by omega), if_neg (by omega)]
      rfl

theorem sacrificeBonus_onBoard (hc : c.OnBoard) :
    checked.sacrificeBonus raw c {} = .ok (Score.sacrificeBonus raw c {}) := by
  obtain ⟨hlow, hhigh⟩ := abs_le.mp hc.root
  have hmost : Material.most = 57600 := rfl
  have hbar : Fits Int32.size (c.rootAdvantage - 100) := fits32 (by omega) (by omega)
  have hwinning : Fits Int32.size (Score.draw + 300) := by decide
  unfold sacrificeBonus Score.sacrificeBonus
  simp only [checked_keep_bind hbar, checked_keep_bind hwinning]
  split_ifs <;> rfl

theorem scale_onBoard (hc : c.OnBoard) {score : Int} (h : |score| ≤ 40494) :
    checked.scale score c.total {} = .ok (Tuning.scaled {} score c.total) := by
  have hscaled := Tuning.abs_scaled_le hc h
  obtain ⟨ht, hb, ha, -⟩ := hc
  have hmost : Material.most = 57600 := rfl
  have hfactor : |750 * 25 + c.total| ≤ 76350 := by rw [abs_of_nonneg] <;> omega
  have hproduct : |score * (750 * 25 + c.total)| ≤ 40494 * 76350 := by
    rw [abs_mul]
    exact mul_le_mul h hfactor (abs_nonneg _) (by decide)
  have hbase : Fits Int64.size (750 * 25) := by decide
  have hnumerator : Fits Int64.size (750 * 25 + c.total) := fits_of_abs_le hfactor (by decide)
  have hdenominator : Fits Int64.size (25 * 1024) := by decide
  have hproduct' : Fits Int64.size (score * (750 * 25 + c.total)) := fits_of_abs_le hproduct (by decide)
  have hquotient : checked.quotient Int64.size (score * (750 * 25 + c.total)) (25 * 1024) =
      .ok (Tuning.scaled {} score c.total) := checked_quotient (by decide) (fits_of_abs_le hscaled (by decide))
  simp only [scale, checked_keep_bind hbase, checked_keep_bind hnumerator, checked_keep_bind hdenominator,
    checked_keep_bind hproduct', hquotient]
  exact trap_of_fits (fits_of_abs_le hscaled (by decide))

theorem contempt_standard (advantage : Int) : checked.contempt advantage {} = .ok (Score.contempt advantage {}) := by
  unfold contempt Score.contempt
  split_ifs <;> rfl

theorem unfaded_onBoard (hc : c.OnBoard) (h : isDecisive raw = false) :
    checked.unfaded raw c {} = .ok (Tuning.fresh {} raw c) := by
  have hboosted := Tuning.boosted_bounds hc h
  have hunfaded : Fits Int32.size (Tuning.unfaded {} raw c) := fits_of_abs_le (Tuning.abs_unfaded_le hc hboosted) (by decide)
  have hscale := scale_onBoard hc hboosted
  have hboosted' : Fits Int32.size (Tuning.boosted {} raw c) := fits_of_abs_le hboosted (by decide)
  have houtrun : Fits Int32.size (raw + Tuning.excess {} raw c.advantage) := by
    obtain ⟨hs, hs'⟩ := Score.sacrificeBonus_bounds raw c
    obtain ⟨hlow, hhigh⟩ := abs_le.mp hboosted
    rw [Tuning.boosted] at hlow hhigh
    exact fits32 (by omega) (by omega)
  -- the calculation in words has these sums written out
  unfold Tuning.boosted at hboosted' hscale
  unfold Tuning.unfaded Tuning.boosted at hunfaded
  simp only [unfaded, excessBonus_onBoard hc h, sacrificeBonus_onBoard hc, ok_bind, checked_keep_bind houtrun,
    checked_keep_bind hboosted', hscale, contempt_standard, checked_keep_bind hunfaded]
  rfl

/-- Nothing overflows on a board: the adjustment in words is plain integers throughout. -/
theorem checked_onBoard (hc : c.OnBoard) (raw : Int) : checked.trace raw c {} = .ok (Tuning.adjusted {} raw c) := by
  cases h : isDecisive raw with
  | true => simp only [trace, Tuning.adjusted, h, if_true]
  | false =>
    have hfresh := unfaded_onBoard hc h
    have hfits : Fits Int32.size (Tuning.unfaded {} raw c) := fits_of_checked_unfaded hfresh
    rw [trace_of_not_decisive _ h, hfresh, ok_bind, Tuning.adjusted_of_not_decisive _ h]
    exact congrArg (· >>= _) (checked_fade hfits (by decide) (by decide) c.halfmoveClock)

end Arithmetic

namespace Score

theorem trace_onBoard {c : Context} (hc : c.OnBoard) (raw : Int) : trace raw c {} = .ok (Tuning.adjusted {} raw c) := by
  refine trace_of_noOverflow ⟨by decide, by decide, by decide⟩ ?_
  rw [NoOverflow, Arithmetic.checked_onBoard hc]
  intro hstop
  cases hstop

/-- The score scaled by 750 and a twenty-fifth of all material, over 1024, with nothing rounded. -/
def exactScaled (score total : Int) : ℚ := score * (750 + (total : ℚ) / 25) / 1024

/-- The two divisors of the scaling are one, so its quotient is cut only once. -/
theorem scaled_eq_cut (score total : Int) : Tuning.scaled {} score total = cut (exactScaled score total) := by
  have hexact : exactScaled score total = ((score * (18750 + total) : Int) : ℚ) / (25600 : Nat) := by
    rw [exactScaled]
    push_cast
    ring
  rw [hexact, cut_intCast_div _ (by decide)]
  rfl

theorem abs_final_le {raw : Int} {c : Context} (hc : c.OnBoard) (h : isDecisive raw = false) :
    |Tuning.faded {} (Tuning.unfaded {} raw c) c.halfmoveClock| ≤ 120820 :=
  (Tuning.abs_faded_le (by decide) _ _).trans (Tuning.abs_unfaded_le hc (Tuning.boosted_bounds hc h))

/-- The bound is reached by the last score before the decisive ones, with a queen of the opponent on every square. -/
example : (trace 31486 ⟨0, 0, 57600, -57600, 0⟩ {}).map (·.final) = .ok 120820 := by decide

/-- On every board, at every ply and with the material of any board at the root, the context and
    the adjustment of any raw score are computed without overflow, so what the library returns is
    what its operations stand for. A decisive score passes untouched. Any other is scaled, with its
    two bonuses, by one fraction that is cut once, and ends within 120820. -/
theorem adjustment_fits_on_board (raw : Int) (pos : Position) (ply : Nat) (root : Position) :
    let c := Context.ofPosition pos ply (Line.advantageOf root)
    Arithmetic.checked.context pos ply (Line.advantageOf root) = .ok c ∧
      ∃ tr, Arithmetic.checked.trace raw c {} = .ok tr ∧ trace raw c {} = .ok tr ∧
        (isDecisive raw = true → tr.bypassed = true ∧ tr.scaled = raw ∧ tr.final = raw) ∧
        (isDecisive raw = false →
          tr.scaled = cut (exactScaled (raw + tr.excess + tr.sacrifice) c.total) ∧ |tr.final| ≤ 120820) := by
  intro c
  have hc : c.OnBoard := Context.ofPosition_onBoard pos ply root
  refine ⟨Arithmetic.checked_faithful.context_eq pos ply _, Tuning.adjusted {} raw c, Arithmetic.checked_onBoard hc raw,
    trace_onBoard hc raw, ?_⟩
  constructor
  · intro h
    rw [Tuning.adjusted, if_pos h]
    exact ⟨rfl, rfl, rfl⟩
  · intro h
    rw [Tuning.adjusted_of_not_decisive _ h]
    exact ⟨scaled_eq_cut _ _, abs_final_le hc h⟩

/-- A decisive score is not scaled: the fraction would add 1437 to this one on the initial position. -/
theorem a_decisive_score_is_not_scaled :
    let c := Context.ofPosition Board.start.toPosition 0 (Line.advantageOf Board.start.toPosition)
    ∃ tr, trace 32000 c {} = .ok tr ∧ tr.scaled = 32000 ∧
      cut (exactScaled (32000 + tr.excess + tr.sacrifice) c.total) = 33437 := by
  have hcontext : Context.ofPosition Board.start.toPosition 0 (Line.advantageOf Board.start.toPosition) =
      ⟨0, 0, 8000, 0, 0⟩ := by decide +kernel
  rw [hcontext]
  refine ⟨⟨32000, true, 0, 0, 32000, 0, 32000⟩, rfl, rfl, ?_⟩
  have hexact : exactScaled (32000 + 0 + 0) 8000 = ((32000 * 26750 : Int) : ℚ) / (25600 : Nat) := by
    norm_num [exactScaled]
  exact (congrArg cut hexact).trans (cut_intCast_div _ (by decide))

end Score

end ChessEval
