/-
  ChessEval.Proofs.Score.Fading — without progress a score fades to a draw.

  The last stage of an adjustment leaves of the score, contempt included, the share that the
  half-moves left before the horizon are of the horizon. The other stages do not look at
  the clock, so one trace tells them for all clocks, and the final score is a function of
  the clock alone.

  - `Fades`: scores by the clock that go along a straight line from one score to a draw.
  - `faded_fades`: what is left of a score does.
  - `Arithmetic.checked_fade`: it is computed without overflow, whatever the clock, for a score
    in its word.
  - `score_fades_to_a_draw`: so if nothing overflows before the last stage, nothing does in it,
    and the final scores fade from the scaled score with contempt.
-/

import ChessEval.Proofs.Score.Shape
import Mathlib.Data.Nat.Cast.Order.Ring

namespace ChessEval

/-- Scores, one for each clock, that go straight from a score to a draw at the horizon. -/
structure Fades (score : Int) (horizon : Nat) (final : Nat → Int) : Prop where
  fresh : final 0 = score
  /-- Less than one away from the line. -/
  near : ∀ clock, |(final clock : ℚ) - score * max ((horizon : ℚ) - clock) 0 / horizon| < 1
  /-- Never for the other side. -/
  agrees : ∀ clock, 0 ≤ score * final clock
  shrinks : ∀ clock clock', clock ≤ clock' → |final clock'| ≤ |final clock|
  gone : ∀ clock, horizon ≤ clock → final clock = 0

/-! ## The share that is left -/

namespace Tuning

variable {t : Tuning}

/-- The quotient gives the score itself at clock zero, where none is taken. -/
theorem faded_eq_share (h : 0 < t.fiftyMoveHorizon) (score : Int) (clock : Nat) :
    t.faded score clock = (score * (t.fiftyMoveHorizon - clock : Nat)).tdiv t.fiftyMoveHorizon := by
  by_cases hclock : clock = 0
  · rw [hclock, faded, if_pos (.inl rfl)]
    exact (Int.mul_tdiv_cancel score (Int.natCast_ne_zero.mpr h.ne')).symm
  · rw [faded, if_neg (not_or.mpr ⟨hclock, h.ne'⟩)]

theorem abs_faded_le (h : 0 < t.fiftyMoveHorizon) (score : Int) (clock : Nat) : |t.faded score clock| ≤ |score| := by
  rw [faded_eq_share h]
  exact abs_share_le score (Nat.sub_le _ _) h

theorem faded_near (h : 0 < t.fiftyMoveHorizon) (score : Int) (clock : Nat) :
    |(t.faded score clock : ℚ) - score * max ((t.fiftyMoveHorizon : ℚ) - clock) 0 / t.fiftyMoveHorizon| < 1 := by
  have hleft : ((t.fiftyMoveHorizon - clock : Nat) : ℚ) = max ((t.fiftyMoveHorizon : ℚ) - clock) 0 := by
    rcases le_total clock t.fiftyMoveHorizon with hle | hle
    · rw [Nat.cast_sub hle, max_eq_left (sub_nonneg.mpr (Nat.cast_le.mpr hle))]
    · rw [Nat.sub_eq_zero_of_le hle, max_eq_right (sub_nonpos.mpr (Nat.cast_le.mpr hle)), Nat.cast_zero]
  have hline : (score : ℚ) * max ((t.fiftyMoveHorizon : ℚ) - clock) 0 / t.fiftyMoveHorizon =
      ((score * (t.fiftyMoveHorizon - clock : Nat) : Int) : ℚ) / t.fiftyMoveHorizon := by
    rw [← hleft, Int.cast_mul, Int.cast_natCast]
  rw [hline, faded_eq_share h, ← cut_intCast_div _ h]
  exact abs_cut_sub_lt _

theorem faded_nonneg {score : Int} (h : 0 ≤ score) (clock : Nat) : 0 ≤ t.faded score clock := by
  unfold faded
  split
  · exact h
  · exact Int.tdiv_nonneg (mul_nonneg h (Int.natCast_nonneg _)) (Int.natCast_nonneg _)

theorem faded_agrees (score : Int) (clock : Nat) : 0 ≤ score * t.faded score clock := by
  rcases le_total 0 score with h | h
  · exact mul_nonneg h (faded_nonneg h clock)
  · have hneg : 0 ≤ t.faded (-score) clock := faded_nonneg (neg_nonneg.mpr h) clock
    rw [faded_neg] at hneg
    exact mul_nonneg_of_nonpos_of_nonpos h (neg_nonneg.mp hneg)

theorem faded_shrinks (h : 0 < t.fiftyMoveHorizon) (score : Int) {clock clock' : Nat} (hle : clock ≤ clock') :
    |t.faded score clock'| ≤ |t.faded score clock| := by
  have hhorizon : (0 : Int) < t.fiftyMoveHorizon := Int.natCast_pos.mpr h
  have hleft : t.fiftyMoveHorizon - clock' ≤ t.fiftyMoveHorizon - clock := Nat.sub_le_sub_left hle _
  simp only [faded_eq_share h, abs_tdiv hhorizon, abs_mul, Nat.abs_cast]
  exact Int.ediv_le_ediv hhorizon (mul_le_mul_of_nonneg_left (Int.ofNat_le.mpr hleft) (abs_nonneg _))

theorem faded_gone (h : 0 < t.fiftyMoveHorizon) (score : Int) {clock : Nat} (hclock : t.fiftyMoveHorizon ≤ clock) :
    t.faded score clock = 0 := by
  rw [faded_eq_share h, Nat.sub_eq_zero_of_le hclock, Nat.cast_zero, mul_zero, Int.zero_tdiv]

theorem faded_fades (h : 0 < t.fiftyMoveHorizon) (score : Int) : Fades score t.fiftyMoveHorizon (t.faded score) where
  fresh := if_pos (.inl rfl)
  near := faded_near h score
  agrees := faded_agrees score
  shrinks _ _ := faded_shrinks h score
  gone _ := faded_gone h score

end Tuning

/-- The facts of a position with another clock. -/
def Context.atClock (c : Context) (clock : Nat) : Context := { c with halfmoveClock := clock }

/-! ## Fading in words -/

namespace Arithmetic

open Score (isDecisive)

variable {raw : Int} {c : Context} {t : Tuning}

theorem unfaded_atClock (w : Arithmetic) (clock : Nat) : w.unfaded raw (c.atClock clock) t = w.unfaded raw c t := rfl

/-- Without a zero divisor, overflow is all that can stop the calculation. -/
theorem checked_unfaded (ht : t.NonzeroDivisors) (h : checked.unfaded raw c t ≠ .error .overflow) :
    checked.unfaded raw c t = .ok (t.fresh raw c) := by
  rw [← plain_unfaded ht]
  exact (plain_faithful.unfaded_same raw c).resolve_left h

theorem fits_of_checked_unfaded {tr : Trace} (h : checked.unfaded raw c t = .ok tr) : Fits Int32.size tr.final := by
  obtain ⟨excess, -, h⟩ := bind_eq_ok h
  obtain ⟨sacrifice, -, h⟩ := bind_eq_ok h
  obtain ⟨outrun, -, h⟩ := bind_eq_ok h
  obtain ⟨boosted, -, h⟩ := bind_eq_ok h
  obtain ⟨scaled, -, h⟩ := bind_eq_ok h
  obtain ⟨contempt, -, h⟩ := bind_eq_ok h
  obtain ⟨final, hfinal, h⟩ := bind_eq_ok h
  obtain ⟨hfits, rfl⟩ := trap_eq_ok hfinal
  cases h
  exact hfits

/-- A score of 32 bits times the 32 bits of the half-moves left fits 64 bits. -/
theorem checked_fade {score : Int} (hscore : Fits Int32.size score) (h : 0 < t.fiftyMoveHorizon)
    (hword : t.fiftyMoveHorizon < UInt32.size) (clock : Nat) : checked.fade score clock t = .ok (t.faded score clock) := by
  by_cases hclock : clock = 0
  · rw [hclock, fade, Tuning.faded, if_pos (.inl rfl), if_pos (.inl rfl)]
    rfl
  · have hfades : ¬ (clock = 0 ∨ t.fiftyMoveHorizon = 0) := not_or.mpr ⟨hclock, h.ne'⟩
    have hfaded : Fits Int32.size (t.faded score clock) :=
      hscore.shrunk (Tuning.abs_faded_le h score clock) (Tuning.faded_agrees score clock)
    have hproduct : Fits Int64.size (score * (t.fiftyMoveHorizon - clock : Nat)) := by
      refine fits_of_abs_le (abs_mul_natCast_le score (Nat.sub_le _ _)) ?_
      have hbound : |score| * t.fiftyMoveHorizon ≤ 2147483648 * 4294967295 :=
        mul_le_mul (abs_le_of_fits hscore (by decide)) (by simp only [UInt32.size] at hword; omega) (Int.natCast_nonneg _)
          (by decide)
      simp only [Int64.size]
      omega
    have hquotient : checked.quotient Int64.size (score * (t.fiftyMoveHorizon - clock : Nat)) t.fiftyMoveHorizon =
        .ok (t.faded score clock) := by
      rw [Tuning.faded_eq_share h] at hfaded ⊢
      exact checked_quotient (Int.natCast_ne_zero.mpr h.ne') (hfaded.mono (by decide))
    rw [fade, if_neg hfades, checked_keep_bind hproduct, hquotient, ok_bind]
    exact trap_of_fits hfaded

end Arithmetic

/-- If nothing overflows before the last stage, then at no clock does anything overflow, and the traces
    at all clocks differ in the final score only. It goes straight from the scaled score with
    contempt, at clock zero, to a draw at the horizon. -/
theorem Score.score_fades_to_a_draw {t : Tuning} (ht : t.NonzeroDivisors) (hpos : 0 < t.fiftyMoveHorizon)
    (hword : t.fiftyMoveHorizon < UInt32.size) {raw : Int} (hraw : isDecisive raw = false) {c : Context}
    (h : Arithmetic.checked.unfaded raw c t ≠ .error .overflow) :
    ∃ (tr : Trace) (final : Nat → Int), tr.bypassed = false ∧
      (∀ clock, Arithmetic.checked.trace raw (c.atClock clock) t = .ok { tr with final := final clock } ∧
        trace raw (c.atClock clock) t = .ok { tr with final := final clock }) ∧
      Fades (tr.scaled + tr.contempt) t.fiftyMoveHorizon final := by
  have hfresh := Arithmetic.checked_unfaded ht h
  have hfits := Arithmetic.fits_of_checked_unfaded hfresh
  refine ⟨t.fresh raw c, t.faded (t.unfaded raw c), rfl, fun clock => ?_, Tuning.faded_fades hpos _⟩
  have hchecked : Arithmetic.checked.trace raw (c.atClock clock) t =
      .ok { t.fresh raw c with final := t.faded (t.unfaded raw c) clock } := by
    rw [Arithmetic.trace_of_not_decisive _ hraw, Arithmetic.unfaded_atClock, hfresh, ok_bind]
    exact congrArg (· >>= _) (Arithmetic.checked_fade hfits hpos hword clock)
  have hover : NoOverflow raw (c.atClock clock) t := by
    rw [NoOverflow, hchecked]
    exact nofun
  refine ⟨hchecked, ?_⟩
  rw [trace_of_noOverflow ht hover, Tuning.adjusted_of_not_decisive t hraw]
  rfl

/-- The lowest score of 32 bits, fading over the longest horizon. -/
theorem Score.lowest_score_fades_to_a_draw :
    let t : Tuning :=
      { excessThreshold := 100000, scalingBase := 68204, scalingMaterialDivisor := 1, scalingDenominator := 1,
        fiftyMoveHorizon := 4294967295, contempt := 12504 }
    let c : Context := ⟨1, 0, 0, 100, 0⟩
    (t.NonzeroDivisors ∧ 0 < t.fiftyMoveHorizon ∧ t.fiftyMoveHorizon < UInt32.size ∧ isDecisive (-31486) = false ∧
        Arithmetic.checked.unfaded (-31486) c t ≠ .error .overflow ∧ adjust (-31486) c t = .ok (-2147483648)) ∧
      ∃ (tr : Trace) (final : Nat → Int), tr.bypassed = false ∧
        (∀ clock, Arithmetic.checked.trace (-31486) (c.atClock clock) t = .ok { tr with final := final clock } ∧
          trace (-31486) (c.atClock clock) t = .ok { tr with final := final clock }) ∧
        Fades (tr.scaled + tr.contempt) t.fiftyMoveHorizon final := by
  intro t c
  have ht : t.NonzeroDivisors := ⟨by decide, by decide, by decide⟩
  have hpos : 0 < t.fiftyMoveHorizon := by decide
  have hword : t.fiftyMoveHorizon < UInt32.size := by decide
  have hraw : isDecisive (-31486) = false := by decide
  have h : Arithmetic.checked.unfaded (-31486) c t ≠ .error .overflow := by decide
  exact ⟨⟨ht, hpos, hword, hraw, h, by decide⟩, score_fades_to_a_draw ht hpos hword hraw h⟩

end ChessEval
