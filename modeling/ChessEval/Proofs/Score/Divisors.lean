/-
  ChessEval.Proofs.Score.Divisors — the adjustments divide by three tuning values.

  - `trace_ok`: if none of the three is zero, every score is adjusted without a fault.
  - `trace_cases`: what an answered adjustment has done, stage by stage.
  - `trace_raw`: its trace begins with the score that was adjusted.
-/

import ChessEval.Proofs.Except
import ChessEval.Score.Adjust
import Mathlib.Algebra.Order.Ring.Int

namespace ChessEval

/-- The values that the adjustments divide by are not zero. -/
def Tuning.NonzeroDivisors (t : Tuning) : Prop :=
  t.excessDivisor ≠ 0 ∧ t.scalingMaterialDivisor ≠ 0 ∧ t.scalingDenominator ≠ 0

namespace Score

variable {t : Tuning}

theorem quotient_ok {d : Int} (h : d ≠ 0) (n : Int) : quotient n d = .ok (n.tdiv d) := if_neg h

theorem excessBonus_ok (h : t.excessDivisor ≠ 0) (score advantage : Int) :
    ∃ bonus, excessBonus score advantage t = .ok bonus := by
  unfold excessBonus
  split
  · rw [quotient_ok h]
    exact ⟨_, rfl⟩
  · split
    · rw [quotient_ok h]
      exact ⟨_, rfl⟩
    · exact ⟨_, rfl⟩

theorem scale_eq (hm : t.scalingMaterialDivisor ≠ 0) (hd : t.scalingDenominator ≠ 0) (score total : Int) :
    scale score total t = .ok (narrow ((score * (t.scalingBase * t.scalingMaterialDivisor + total)).tdiv
      (t.scalingMaterialDivisor * t.scalingDenominator))) := by
  simp only [scale, quotient_ok (mul_ne_zero hm hd), bind, Except.bind]
  rfl

theorem trace_ok (h : t.NonzeroDivisors) (raw : Int) (c : Context) : ∃ tr, trace raw c t = .ok tr := by
  obtain ⟨he, hm, hd⟩ := h
  unfold trace
  split
  · exact ⟨_, rfl⟩
  · obtain ⟨bonus, hb⟩ := excessBonus_ok he raw c.advantage
    simp only [hb, scale_eq hm hd, bind, Except.bind]
    exact ⟨_, rfl⟩

/-- What an answered adjustment has done: the raw score passed, or it went through the stages. -/
theorem trace_cases {raw : Int} {c : Context} {tr : Trace} (h : trace raw c t = .ok tr) :
    (isDecisive raw = true ∧
      tr = { raw, bypassed := true, excess := 0, sacrifice := 0, scaled := raw, contempt := 0, final := raw }) ∨
    (isDecisive raw = false ∧ ∃ excess scaled,
      excessBonus raw c.advantage t = .ok excess ∧
      scale (raw + excess + sacrificeBonus raw c t) c.total t = .ok scaled ∧
      tr = { raw, bypassed := false, excess, sacrifice := sacrificeBonus raw c t, scaled,
             contempt := contempt c.advantage t, final := fade (scaled + contempt c.advantage t) c.halfmoveClock t }) := by
  unfold trace at h
  split at h
  case isTrue hraw =>
    cases h
    exact Or.inl ⟨hraw, rfl⟩
  case isFalse hraw =>
    obtain ⟨excess, hexcess, h⟩ := bind_eq_ok h
    obtain ⟨scaled, hscaled, h⟩ := bind_eq_ok h
    cases h
    exact Or.inr ⟨Bool.eq_false_iff.mpr hraw, excess, scaled, hexcess, hscaled, rfl⟩

theorem trace_raw {raw : Int} {c : Context} {tr : Trace} (h : trace raw c t = .ok tr) : tr.raw = raw := by
  rcases trace_cases h with ⟨-, rfl⟩ | ⟨-, excess, scaled, -, -, rfl⟩
  · rfl
  · rfl

end Score

end ChessEval
