/-
  ChessEval.Proofs.Score.Faults — the only fault of an adjustment is a division by zero, and when
  there is one.

  A decisive score is not adjusted, so it passes under any tuning. Of the divisors of the others the
  two of the scaling always count, the excess divisor only for a score that outruns the material
  balance (`Outruns`), and the horizon never: where it is zero nothing fades.

  - `Score.trace_eq_error_iff`: an adjustment fails exactly then (`DividesByZero`).
  - `NoOverflow.checked_trace` tells that an adjustment in words that does not overflow comes to what
    the library's comes to, its faults included, so it fails just then as well.
  - `trace_withoutHorizon`: with the horizon at zero an adjustment fails as with any other, and
    leaves the scaled score and contempt as they are.
-/

import ChessEval.Proofs.Score.Fading

namespace ChessEval

open Arithmetic (checked)

/-! ## When there is a division by zero -/

/-- The score is ahead of the material balance by more than the threshold, or as far behind it. -/
def Outruns (score advantage threshold : Int) : Prop :=
  (0 < score ∧ advantage + threshold < score) ∨ (score < 0 ∧ score < advantage - threshold)

/-- The score is adjusted, and one of the values that it is divided by on the way is zero. -/
def DividesByZero (raw : Int) (c : Context) (t : Tuning) : Prop :=
  Score.isDecisive raw = false ∧
    (t.scalingMaterialDivisor = 0 ∨ t.scalingDenominator = 0 ∨
      (t.excessDivisor = 0 ∧ Outruns raw c.advantage t.excessThreshold))

namespace Score

variable {t : Tuning}

theorem quotient_eq_error_iff {n d : Int} {f : Fault} : quotient n d = .error f ↔ f = .zeroDivisor ∧ d = 0 := by
  unfold quotient
  split
  case isTrue hd =>
    rw [Except.error.injEq]
    exact ⟨fun h => ⟨h.symm, hd⟩, fun h => h.1.symm⟩
  case isFalse hd => exact ⟨fun h => (nomatch h), fun h => absurd h.2 hd⟩

theorem excessBonus_eq_error_iff {score advantage : Int} {f : Fault} :
    excessBonus score advantage t = .error f ↔
      f = .zeroDivisor ∧ t.excessDivisor = 0 ∧ Outruns score advantage t.excessThreshold := by
  unfold excessBonus
  split
  case isTrue hahead =>
    have hout : Outruns score advantage t.excessThreshold := .inl hahead
    rw [bind_pure_comp, map_eq_error_iff, quotient_eq_error_iff]
    exact and_congr_right fun _ => (and_iff_left hout).symm
  case isFalse hahead =>
    split
    case isTrue hbehind =>
      have hout : Outruns score advantage t.excessThreshold := .inr hbehind
      rw [bind_pure_comp, map_eq_error_iff, quotient_eq_error_iff]
      exact and_congr_right fun _ => (and_iff_left hout).symm
    case isFalse hbehind =>
      have hout : ¬ Outruns score advantage t.excessThreshold := not_or.mpr ⟨hahead, hbehind⟩
      exact ⟨fun h => (nomatch h), fun h => absurd h.2.2 hout⟩

theorem scale_eq_error_iff {score total : Int} {f : Fault} :
    scale score total t = .error f ↔ f = .zeroDivisor ∧ (t.scalingMaterialDivisor = 0 ∨ t.scalingDenominator = 0) := by
  unfold scale
  rw [bind_pure_comp, map_eq_error_iff, quotient_eq_error_iff, mul_eq_zero]

/-- An adjustment fails exactly if it comes upon a divisor that is zero. -/
theorem trace_eq_error_iff {raw : Int} {c : Context} {f : Fault} :
    trace raw c t = .error f ↔ f = .zeroDivisor ∧ DividesByZero raw c t := by
  unfold trace DividesByZero
  split
  case isTrue hraw => exact ⟨fun h => (nomatch h), fun h => absurd hraw (Bool.eq_false_iff.mp h.2.1)⟩
  case isFalse hraw =>
    have hraw : isDecisive raw = false := Bool.eq_false_iff.mpr hraw
    simp only [bind_pure_comp, bind_eq_error_iff, map_eq_error_iff, excessBonus_eq_error_iff, scale_eq_error_iff]
    constructor
    · rintro (⟨hf, hexcess⟩ | ⟨-, -, hf, hscale⟩)
      · exact ⟨hf, hraw, .inr (.inr hexcess)⟩
      · exact ⟨hf, hraw, hscale.imp_right .inl⟩
    · rintro ⟨hf, -, hzero⟩
      by_cases hexcess : t.excessDivisor = 0 ∧ Outruns raw c.advantage t.excessThreshold
      · exact .inl ⟨hf, hexcess⟩
      · -- the bonus comes first, and here it has none of the zeros
        cases hbonus : excessBonus raw c.advantage t with
        | error e => exact absurd (excessBonus_eq_error_iff.mp hbonus).2 hexcess
        | ok bonus =>
          have hscale := (or_assoc.mpr hzero).resolve_right hexcess
          exact .inr ⟨bonus, rfl, hf, hscale⟩

end Score

/-! ## Without a horizon -/

/-- The trace with nothing faded. -/
def Trace.unfaded (tr : Trace) : Trace := { tr with final := tr.scaled + tr.contempt }

def Tuning.withoutHorizon (t : Tuning) : Tuning := { t with fiftyMoveHorizon := 0 }

/-- No stage but the last looks at the clock or the horizon, and at horizon zero the last does nothing. -/
theorem Score.trace_withoutHorizon (raw : Int) (c : Context) (t : Tuning) (clock : Nat) :
    trace raw (c.atClock clock) t.withoutHorizon = (trace raw c t).map Trace.unfaded := by
  cases htrace : trace raw c t with
  | error f =>
    obtain ⟨hf, hzero⟩ := trace_eq_error_iff.mp htrace
    have hzero' : DividesByZero raw (c.atClock clock) t.withoutHorizon := hzero
    exact trace_eq_error_iff.mpr ⟨hf, hzero'⟩
  | ok tr =>
    rcases trace_cases htrace with ⟨hraw, rfl⟩ | ⟨hraw, excess, scaled, hexcess, hscaled, rfl⟩
    · simp only [trace, hraw, if_true, Except.map, Trace.unfaded, add_zero]
    · have hexcess' : excessBonus raw (c.atClock clock).advantage t.withoutHorizon = .ok excess := hexcess
      have hscaled' : scale (raw + excess + sacrificeBonus raw (c.atClock clock) t.withoutHorizon)
          (c.atClock clock).total t.withoutHorizon = .ok scaled := hscaled
      have hfade (score : Int) : fade score (c.atClock clock).halfmoveClock t.withoutHorizon = score := if_pos (.inr rfl)
      simp only [trace, hraw, hexcess', hscaled', hfade, Bool.false_eq_true, if_false, bind, Except.bind]
      rfl

theorem NoOverflow.withoutHorizon {raw : Int} {c : Context} {t : Tuning} (h : NoOverflow raw c t) (clock : Nat) :
    NoOverflow raw (c.atClock clock) t.withoutHorizon := by
  unfold NoOverflow at h ⊢
  cases hraw : Score.isDecisive raw with
  | true =>
    rw [Arithmetic.trace, hraw]
    intro hstop
    cases hstop
  | false =>
    have hunfaded : checked.unfaded raw (c.atClock clock) t.withoutHorizon = checked.unfaded raw c t := rfl
    have hfade (score : Int) : checked.fade score (c.atClock clock).halfmoveClock t.withoutHorizon = .ok score :=
      if_pos (.inr rfl)
    rw [Arithmetic.trace_of_not_decisive _ hraw] at h ⊢
    rw [hunfaded]
    cases hu : checked.unfaded raw c t with
    | error e =>
      rw [hu] at h
      exact h
    | ok tr =>
      rw [ok_bind, hfade]
      intro hstop
      cases hstop

theorem Arithmetic.checked_trace_withoutHorizon {raw : Int} {c : Context} {t : Tuning} (h : NoOverflow raw c t)
    (clock : Nat) : checked.trace raw (c.atClock clock) t.withoutHorizon = (checked.trace raw c t).map Trace.unfaded := by
  rw [(h.withoutHorizon clock).checked_trace, h.checked_trace, Score.trace_withoutHorizon]
  cases Score.trace raw c t <;> rfl

/-- An adjustment fails exactly if the score is not decisive and either a divisor of the scaling is
    zero, or the excess divisor is and the score outruns the balance. That holds in words as well,
    where they do not overflow. A horizon of zero brings no failure, and then the final score is the
    scaled one with contempt, whatever the clock. -/
theorem Score.adjustment_fails_iff_dividing_by_zero (raw : Int) (c : Context) (t : Tuning) :
    (∀ f, trace raw c t = .error f ↔ f = .zeroDivisor ∧ DividesByZero raw c t) ∧
    (NoOverflow raw c t → ∀ s, checked.trace raw c t = .error s ↔ s = .fault .zeroDivisor ∧ DividesByZero raw c t) ∧
    ∀ clock, trace raw (c.atClock clock) t.withoutHorizon = (trace raw c t).map Trace.unfaded ∧
      (NoOverflow raw c t →
        checked.trace raw (c.atClock clock) t.withoutHorizon = (checked.trace raw c t).map Trace.unfaded) := by
  refine ⟨fun f => trace_eq_error_iff, fun h s => ?_, fun clock =>
    ⟨trace_withoutHorizon raw c t clock, fun h => Arithmetic.checked_trace_withoutHorizon h clock⟩⟩
  rw [h.checked_trace]
  cases htrace : trace raw c t with
  | ok tr =>
    constructor
    · intro he
      cases he
    · rintro ⟨-, hzero⟩
      cases htrace.symm.trans (trace_eq_error_iff.mpr ⟨rfl, hzero⟩)
  | error f =>
    obtain ⟨rfl, hzero⟩ := trace_eq_error_iff.mp htrace
    show Except.error (WordFault.fault .zeroDivisor) = .error s ↔ _
    rw [Except.error.injEq, and_iff_left hzero]
    exact eq_comm

/-- On even material with the excess divisor at zero, 50 does not outrun the balance and 51 does. -/
theorem Score.fifty_one_is_divided_by_zero :
    let t : Tuning := { excessDivisor := 0 }
    let c : Context := ⟨1, 0, 8000, 0, 0⟩
    NoOverflow 50 c t ∧ (∀ s, checked.trace 50 c t ≠ .error s) ∧
      NoOverflow 51 c t ∧ checked.trace 51 c t = .error (.fault .zeroDivisor) := by
  intro t c
  have hfifty : NoOverflow 50 c t := by decide
  have hmore : NoOverflow 51 c t := by decide
  have hpasses : ¬ DividesByZero 50 c t := by unfold DividesByZero Outruns; decide
  have hfails : DividesByZero 51 c t := by unfold DividesByZero Outruns; decide
  refine ⟨hfifty, fun s hs => ?_, hmore, ?_⟩
  · exact hpasses (((adjustment_fails_iff_dividing_by_zero 50 c t).2.1 hfifty s).mp hs).2
  · exact ((adjustment_fails_iff_dividing_by_zero 51 c t).2.1 hmore _).mpr ⟨rfl, hfails⟩

end ChessEval
