/-
  ChessEval.Proofs.Score.Shape — how an adjusted score follows the raw one.

  Every stage of an adjustment is odd but the sacrifice bonus, which only pays the side to
  move: negate score and advantage, and the stage is negated. And every stage keeps the
  order of scores, if the divisors are positive and no bonus punishes.

  - `adjusted_opposed`, `opposed_trace_is_negated`: where no sacrifice is paid, the trace of
    the opponent's view is the negated trace.
  - `excess_mono`, `sacrificeBonus_mono`, `scaled_mono`, `faded_mono`: the stages keep the order.
    The excess bonus below zero is, by its oddness, the one above.
  - `adjustment_keeps_order`: so the better raw score is never adjusted to the worse one.
-/

import ChessEval.Proofs.Score.Arithmetic

namespace ChessEval

/-! ## The opponent's view -/

/-- The facts of a position with the advantage counted for the other side. -/
def Context.opposed (c : Context) : Context := { c with advantage := -c.advantage }

/-- Every stage negated. -/
def Trace.negated (tr : Trace) : Trace :=
  { raw := -tr.raw, bypassed := tr.bypassed, excess := -tr.excess, sacrifice := -tr.sacrifice, scaled := -tr.scaled,
    contempt := -tr.contempt, final := -tr.final }

/-- No sacrifice is paid: the other side than the root's is to move, or too little material is left. -/
def Context.PaysNoSacrifice (c : Context) (t : Tuning) : Prop := c.ply % 2 ≠ 0 ∨ c.total ≤ t.sacrificeFloor

namespace Score

theorem isDecisive_neg (score : Int) : isDecisive (-score) = isDecisive score := by
  rw [Bool.eq_iff_iff]
  simp only [isDecisive, Bool.or_eq_true, decide_eq_true_eq]
  omega

theorem sacrificeBonus_eq_zero {c : Context} {t : Tuning} (hc : c.PaysNoSacrifice t) (score : Int) :
    sacrificeBonus score c t = 0 := if_pos hc

theorem contempt_neg (advantage : Int) (t : Tuning) : contempt (-advantage) t = -contempt advantage t := by
  unfold contempt draw
  split_ifs <;> omega

end Score

namespace Tuning

open Score (isDecisive sacrificeBonus)

variable (t : Tuning)

theorem excess_neg (score advantage : Int) : t.excess (-score) (-advantage) = -t.excess score advantage := by
  have hahead : -advantage - -score = score - advantage := by omega
  have hbehind : -score - -advantage = advantage - score := by omega
  unfold excess
  rw [hahead, hbehind]
  split_ifs <;> omega

theorem scaled_neg (score total : Int) : t.scaled (-score) total = -t.scaled score total := by
  rw [scaled, neg_mul, Int.neg_tdiv, scaled]

theorem faded_neg (score : Int) (clock : Nat) : t.faded (-score) clock = -t.faded score clock := by
  unfold faded
  split
  · rfl
  · rw [neg_mul, Int.neg_tdiv]

theorem adjusted_opposed {c : Context} (hc : c.PaysNoSacrifice t) (raw : Int) :
    t.adjusted (-raw) c.opposed = (t.adjusted raw c).negated := by
  have hc' : c.opposed.PaysNoSacrifice t := hc
  have hcontempt : Score.contempt c.opposed.advantage t = -Score.contempt c.advantage t := Score.contempt_neg _ t
  have hboosted : t.boosted (-raw) c.opposed = -t.boosted raw c := by
    rw [boosted, boosted, Score.sacrificeBonus_eq_zero hc, Score.sacrificeBonus_eq_zero hc', Context.opposed, excess_neg]
    ring
  have hscaled : t.scaled (t.boosted (-raw) c.opposed) c.opposed.total = -t.scaled (t.boosted raw c) c.total := by
    rw [hboosted]
    exact t.scaled_neg _ _
  have hunfaded : t.unfaded (-raw) c.opposed = -t.unfaded raw c := by
    rw [unfaded, unfaded, hscaled, hcontempt, neg_add]
  have hfresh : t.fresh (-raw) c.opposed = (t.fresh raw c).negated := by
    rw [fresh, hscaled, hcontempt, hunfaded, Score.sacrificeBonus_eq_zero hc', Context.opposed, excess_neg, fresh,
      Score.sacrificeBonus_eq_zero hc]
    rfl
  unfold adjusted
  rw [Score.isDecisive_neg]
  split
  · rfl
  · rw [hfresh, hunfaded, faded_neg]
    rfl

end Tuning

/-- Where no sacrifice is paid and neither calculation overflows, the negated score with the
    negated advantage has the negated trace. -/
theorem Score.opposed_trace_is_negated {t : Tuning} (ht : t.NonzeroDivisors) {c : Context} (hc : c.PaysNoSacrifice t)
    {raw : Int} (h : NoOverflow raw c t) (h' : NoOverflow (-raw) c.opposed t) :
    ∃ tr, trace raw c t = .ok tr ∧ tr.sacrifice = 0 ∧ trace (-raw) c.opposed t = .ok tr.negated := by
  refine ⟨t.adjusted raw c, trace_of_noOverflow ht h, ?_, ?_⟩
  · unfold Tuning.adjusted
    split
    · rfl
    · exact sacrificeBonus_eq_zero hc raw
  · rw [trace_of_noOverflow ht h', t.adjusted_opposed hc]

/-- A side behind, with a bonus divided by a negative number, whose score fades. -/
theorem Score.opposed_trace_is_negated_when_fading :
    let t : Tuning := { excessDivisor := -7 }
    let c : Context := ⟨1, 40, 7000, -300, 0⟩
    (t.NonzeroDivisors ∧ c.PaysNoSacrifice t ∧ NoOverflow 200 c t ∧ NoOverflow (-200) c.opposed t) ∧
      ∃ tr, trace 200 c t = .ok tr ∧ tr.sacrifice = 0 ∧ trace (-200) c.opposed t = .ok tr.negated := by
  intro t c
  have ht : t.NonzeroDivisors := ⟨by decide, by decide, by decide⟩
  have hc : c.PaysNoSacrifice t := .inl (by decide)
  have h : NoOverflow 200 c t := by decide
  have h' : NoOverflow (-200) c.opposed t := by decide
  exact ⟨⟨ht, hc, h, h'⟩, opposed_trace_is_negated ht hc h h'⟩

/-! ## Order -/

/-- Positive divisors, and bonuses that do not punish, the larger one for the better score. -/
structure Tuning.KeepsOrder (t : Tuning) : Prop where
  excessDivisor : 0 < t.excessDivisor
  scalingMaterialDivisor : 0 < t.scalingMaterialDivisor
  scalingDenominator : 0 < t.scalingDenominator
  excessBase : 0 ≤ t.excessBase
  scalingBase : 0 ≤ t.scalingBase
  sacrificeBonusAhead : 0 ≤ t.sacrificeBonusAhead
  sacrificeBonusWinning : t.sacrificeBonusAhead ≤ t.sacrificeBonusWinning

namespace Tuning

variable {t : Tuning} {r s : Int}

theorem KeepsOrder.nonzeroDivisors (ht : t.KeepsOrder) : t.NonzeroDivisors :=
  ⟨ht.excessDivisor.ne', ht.scalingMaterialDivisor.ne', ht.scalingDenominator.ne'⟩

theorem reward_nonneg (ht : t.KeepsOrder) {lead : Int} (h : t.excessThreshold < lead) : 0 ≤ t.reward lead :=
  add_nonneg ht.excessBase (Int.tdiv_nonneg (by omega) ht.excessDivisor.le)

theorem reward_mono (ht : t.KeepsOrder) (hrs : r ≤ s) : t.reward r ≤ t.reward s :=
  add_le_add le_rfl (Int.tdiv_le_tdiv ht.excessDivisor (by omega))

/-- Above zero the bonus starts with the base at the bar and grows from there. -/
theorem excess_mono_of_nonneg (ht : t.KeepsOrder) (advantage : Int) (hr : 0 ≤ r) (hrs : r ≤ s) :
    0 ≤ t.excess r advantage ∧ t.excess r advantage ≤ t.excess s advantage := by
  unfold excess
  by_cases hbar : 0 < r ∧ advantage + t.excessThreshold < r
  · have hbar' : 0 < s ∧ advantage + t.excessThreshold < s := by omega
    rw [if_pos hbar, if_pos hbar']
    exact ⟨reward_nonneg ht (by omega), reward_mono ht (by omega)⟩
  · have hneg : ¬ (r < 0 ∧ r < advantage - t.excessThreshold) := by omega
    have hneg' : ¬ (s < 0 ∧ s < advantage - t.excessThreshold) := by omega
    rw [if_neg hbar, if_neg hneg, if_neg hneg']
    refine ⟨le_rfl, ?_⟩
    split
    case isTrue hbar' => exact reward_nonneg ht (by omega)
    case isFalse => exact le_rfl

theorem excess_mono (ht : t.KeepsOrder) (advantage : Int) (hrs : r ≤ s) :
    t.excess r advantage ≤ t.excess s advantage := by
  -- below zero, the bonus is the negated one of the opponent's view, which is above zero
  have hneg (n : Int) : t.excess n advantage = -t.excess (-n) (-advantage) := by rw [excess_neg, neg_neg]
  rcases le_total 0 r with hr | hr
  · exact (excess_mono_of_nonneg ht advantage hr hrs).2
  · rcases le_total s 0 with hs | hs
    · rw [hneg r, hneg s]
      exact neg_le_neg (excess_mono_of_nonneg ht (-advantage) (by omega) (by omega)).2
    · have hr' := (excess_mono_of_nonneg ht (-advantage) (neg_nonneg.mpr hr) le_rfl).1
      have hs' := (excess_mono_of_nonneg ht advantage hs le_rfl).1
      rw [hneg r]
      omega

theorem sacrificeBonus_mono (ht : t.KeepsOrder) (c : Context) (hrs : r ≤ s) :
    Score.sacrificeBonus r c t ≤ Score.sacrificeBonus s c t := by
  have hahead := ht.sacrificeBonusAhead
  have hwinning := ht.sacrificeBonusWinning
  unfold Score.sacrificeBonus
  split_ifs <;> omega

theorem boosted_mono (ht : t.KeepsOrder) (c : Context) (hrs : r ≤ s) : t.boosted r c ≤ t.boosted s c :=
  add_le_add (add_le_add hrs (excess_mono ht c.advantage hrs)) (sacrificeBonus_mono ht c hrs)

theorem scaled_mono (ht : t.KeepsOrder) {total : Int} (htotal : 0 ≤ total) (hrs : r ≤ s) :
    t.scaled r total ≤ t.scaled s total := by
  have hnumerator : 0 ≤ t.scalingBase * t.scalingMaterialDivisor + total :=
    add_nonneg (mul_nonneg ht.scalingBase ht.scalingMaterialDivisor.le) htotal
  exact Int.tdiv_le_tdiv (mul_pos ht.scalingMaterialDivisor ht.scalingDenominator)
    (mul_le_mul_of_nonneg_right hrs hnumerator)

theorem faded_mono (clock : Nat) (hrs : r ≤ s) : t.faded r clock ≤ t.faded s clock := by
  unfold faded
  split
  case isTrue => exact hrs
  case isFalse h =>
    have hhorizon : (0 : Int) < t.fiftyMoveHorizon := by omega
    exact Int.tdiv_le_tdiv hhorizon (mul_le_mul_of_nonneg_right hrs (Int.natCast_nonneg _))

theorem adjusted_mono (ht : t.KeepsOrder) {c : Context} (hc : 0 ≤ c.total) (hr : Score.isDecisive r = false)
    (hs : Score.isDecisive s = false) (hrs : r ≤ s) : (t.adjusted r c).final ≤ (t.adjusted s c).final := by
  simp only [adjusted, hr, hs, Bool.false_eq_true, if_false]
  exact faded_mono _ (add_le_add_left (scaled_mono ht hc (boosted_mono ht c hrs)) _)

end Tuning

/-- Where nothing overflows, the better of two scores that are not decisive is not adjusted to the worse. -/
theorem Score.adjustment_keeps_order {t : Tuning} (ht : t.KeepsOrder) {c : Context} (hc : 0 ≤ c.total) {r s : Int}
    (hrs : r ≤ s) (hr : isDecisive r = false) (hs : isDecisive s = false) (h : NoOverflow r c t) (h' : NoOverflow s c t) :
    ∃ score score', adjust r c t = .ok score ∧ adjust s c t = .ok score' ∧ score ≤ score' := by
  refine ⟨(t.adjusted r c).final, (t.adjusted s c).final, ?_, ?_, Tuning.adjusted_mono ht hc hr hs hrs⟩
  · rw [adjust, trace_of_noOverflow ht.nonzeroDivisors h]
    rfl
  · rw [adjust, trace_of_noOverflow ht.nonzeroDivisors h']
    rfl

/-- Negative thresholds: the better score earns both bonuses, the worse one, below zero, the larger sacrifice bonus. -/
theorem Score.adjustment_keeps_order_between_bonuses :
    let t : Tuning := { excessThreshold := -80, sacrificeWinningMargin := -50, contempt := -7, fiftyMoveHorizon := 90 }
    let c : Context := ⟨2, 3, 7000, -300, 0⟩
    (t.KeepsOrder ∧ 0 ≤ c.total ∧ NoOverflow (-40) c t ∧ NoOverflow 1 c t) ∧
      ∃ score score', adjust (-40) c t = .ok score ∧ adjust 1 c t = .ok score' ∧ score ≤ score' := by
  intro t c
  have ht : t.KeepsOrder := ⟨by decide, by decide, by decide, by decide, by decide, by decide, by decide⟩
  have hc : 0 ≤ c.total := by decide
  have h : NoOverflow (-40) c t := by decide
  have h' : NoOverflow 1 c t := by decide
  exact ⟨⟨ht, hc, h, h'⟩, adjustment_keeps_order ht hc (by decide) (by decide) (by decide) h h'⟩

end ChessEval
