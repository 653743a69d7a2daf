/-
  ChessEval.Proofs.Score.Decisive — which adjusted scores read as a forced result.

  An adjustment looks for a decisive score once, before it starts, so what a bonus and
  the scaling add afterwards can carry an ordinary score into the range kept for
  forced results.
  - `trace_decisive_iff`: an adjusted score is decisive if the raw one was or if it overshoots.
  - `not_overshoots_of_margin`, `overshoots_of_gt`, `overshoots_of_lt`: a raw score from -4328 to
    4255 overshoots on no board, and any other that is not decisive does on one of queens only.
  - `final_decisive_iff`: the two together.
-/

import ChessEval.Proofs.Score.Range

namespace ChessEval

namespace Score

variable {raw : Int} {c : Context}

/-- The score is not decisive, but what is left of it when it has been adjusted is. -/
def Overshoots (raw : Int) (c : Context) : Prop :=
  isDecisive raw = false ∧ tablebaseWinAtMaxPly * 200 ≤ |Tuning.unfaded {} raw c| * (200 - c.halfmoveClock : Nat)

theorem isDecisive_faded_iff (score : Int) (clock : Nat) :
    isDecisive (Tuning.faded {} score clock) = true ↔ tablebaseWinAtMaxPly * 200 ≤ |score| * (200 - clock : Nat) := by
  rw [Tuning.faded_standard, isDecisive_iff, abs_tdiv (by decide), abs_mul, Int.le_ediv_iff_mul_le (by decide), Nat.abs_cast]

/-- The adjustment passes a decisive score untouched and no other. -/
theorem trace_decisive_iff (hc : c.OnBoard) (raw : Int) :
    ∃ tr, trace raw c {} = .ok tr ∧ (tr.bypassed = true ↔ isDecisive raw = true) ∧
      (tr.bypassed = true → tr.final = raw) ∧ (isDecisive tr.final = true ↔ isDecisive raw = true ∨ Overshoots raw c) := by
  refine ⟨_, trace_onBoard hc raw, ?_⟩
  cases h : isDecisive raw with
  | true => simp [Tuning.adjusted, h]
  | false =>
    rw [Tuning.adjusted_of_not_decisive _ h]
    simp [Tuning.fresh, Overshoots, h, isDecisive_faded_iff]

/-! ## The margin -/

theorem boosted_within (hc : c.OnBoard) (hlow : -4328 ≤ raw) (hhigh : raw ≤ 4255) :
    |Tuning.boosted {} raw c| ≤ 10540 := by
  obtain ⟨ht, hb, ha, -⟩ := hc
  obtain ⟨hs, hs'⟩ := sacrificeBonus_bounds raw c
  -- the bonus for a sacrifice is not paid below a draw, which is why the margin is not symmetric
  have hnone := fun h : raw ≤ 0 => sacrificeBonus_of_nonpos h c
  have hmost : Material.most = 57600 := rfl
  rw [Tuning.boosted, Tuning.excess_standard, abs_le]
  split_ifs <;> omega

theorem not_overshoots_of_margin (hc : c.OnBoard) (hlow : -4328 ≤ raw) (hhigh : raw ≤ 4255) : ¬ Overshoots raw c := by
  rintro ⟨-, hover⟩
  have hunfaded : |Tuning.unfaded {} raw c| ≤ 31484 := Tuning.abs_unfaded_le hc (boosted_within hc hlow hhigh)
  have hleft : |Tuning.unfaded {} raw c| * (200 - c.halfmoveClock : Nat) ≤ 31484 * 200 :=
    mul_le_mul hunfaded (by omega) (by omega) (by decide)
  have htablebase : tablebaseWinAtMaxPly = 31487 := rfl
  omega

/-- A queen of this side on every square, White to move. -/
def queens (side : Color) : Position := ⟨.ofFn fun _ => some ⟨side, .queen⟩, .white, 0⟩

/-- At clock zero nothing fades. -/
theorem overshoots_of_unfaded (h : isDecisive raw = false) (hclock : c.halfmoveClock = 0)
    (hover : tablebaseWinAtMaxPly ≤ |Tuning.unfaded {} raw c|) : Overshoots raw c := by
  refine ⟨h, ?_⟩
  rw [hclock]
  exact mul_le_mul_of_nonneg_right hover (by decide)

theorem overshoots_of_gt (h : isDecisive raw = false) (hraw : 4255 < raw) :
    Overshoots raw (.ofPosition (queens .black) 0 0) := by
  have hcontext : Context.ofPosition (queens .black) 0 0 = ⟨0, 0, 57600, -57600, 0⟩ := by decide +kernel
  rw [hcontext]
  have hsacrifice : sacrificeBonus raw ⟨0, 0, 57600, -57600, 0⟩ {} = 80 := by
    have hwinning : draw + 300 < raw := by simp only [draw]; omega
    simp [sacrificeBonus, hwinning]
  have hboosted : 10541 ≤ Tuning.boosted {} raw ⟨0, 0, 57600, -57600, 0⟩ := by
    rw [Tuning.boosted, hsacrifice, Tuning.excess_standard, if_pos (by dsimp only; omega)]
    dsimp only
    omega
  have hscaled : 31437 ≤ Tuning.scaled {} (Tuning.boosted {} raw ⟨0, 0, 57600, -57600, 0⟩) 57600 := by
    rw [Tuning.scaled_standard, Int.tdiv_eq_ediv_of_nonneg (by omega)]
    omega
  exact overshoots_of_unfaded h rfl (le_abs.mpr (.inl (add_le_add_left hscaled 50)))

theorem overshoots_of_lt (h : isDecisive raw = false) (hraw : raw < -4328) :
    Overshoots raw (.ofPosition (queens .white) 0 0) := by
  have hcontext : Context.ofPosition (queens .white) 0 0 = ⟨0, 0, 57600, 57600, 0⟩ := by decide +kernel
  rw [hcontext]
  have hboosted : 10541 ≤ -Tuning.boosted {} raw ⟨0, 0, 57600, 57600, 0⟩ := by
    rw [Tuning.boosted, sacrificeBonus_of_nonpos (by omega), Tuning.excess_standard, if_neg (by omega),
      if_pos (by dsimp only; omega)]
    dsimp only
    omega
  have hscaled : 31437 ≤ -Tuning.scaled {} (Tuning.boosted {} raw ⟨0, 0, 57600, 57600, 0⟩) 57600 := by
    rw [Tuning.scaled_standard, ← Int.neg_tdiv, ← neg_mul, Int.tdiv_eq_ediv_of_nonneg (by omega)]
    omega
  refine overshoots_of_unfaded h rfl (le_abs.mpr (.inr ?_))
  rw [Tuning.unfaded, neg_add]
  exact add_le_add_left hscaled 50

/-- On every board the adjustment passes a decisive score untouched and no other, and what it
    returns is decisive if the raw score was or if it overshoots. The raw scores that overshoot
    on no board, after no sacrifice and at no clock are those from -4328 to 4255 and the
    decisive ones. -/
theorem final_decisive_iff (raw : Int) :
    (∀ (pos : Position) (ply : Nat) (root : Position),
      ∃ tr, trace raw (.ofPosition pos ply (Line.advantageOf root)) {} = .ok tr ∧
        (tr.bypassed = true ↔ isDecisive raw = true) ∧ (tr.bypassed = true → tr.final = raw) ∧
        (isDecisive tr.final = true ↔
          isDecisive raw = true ∨ Overshoots raw (.ofPosition pos ply (Line.advantageOf root)))) ∧
    ((∀ (pos : Position) (ply : Nat) (root : Position), ¬ Overshoots raw (.ofPosition pos ply (Line.advantageOf root))) ↔
      isDecisive raw = true ∨ (-4328 ≤ raw ∧ raw ≤ 4255)) := by
  refine ⟨fun pos ply root => trace_decisive_iff (Context.ofPosition_onBoard pos ply root) raw, fun hnone => ?_, ?_⟩
  · have hstart : Line.advantageOf Board.start.toPosition = 0 := by decide +kernel
    cases h : isDecisive raw with
    | true => exact .inl rfl
    | false =>
      refine .inr ⟨not_lt.mp fun hlt => ?_, not_lt.mp fun hgt => ?_⟩
      · exact hnone (queens .white) 0 Board.start.toPosition (hstart ▸ overshoots_of_lt h hlt)
      · exact hnone (queens .black) 0 Board.start.toPosition (hstart ▸ overshoots_of_gt h hgt)
  · rintro (hdecisive | ⟨hlow, hhigh⟩) pos ply root
    · exact fun hover => by rw [hover.1] at hdecisive; cases hdecisive
    · exact not_overshoots_of_margin (Context.ofPosition_onBoard pos ply root) hlow hhigh

/-- In the initial position the last score before the decisive ones gains more than the mates have. -/
theorem a_winning_score_overshoots :
    let c := Context.ofPosition Board.start.toPosition 0 (Line.advantageOf Board.start.toPosition)
    ∃ tr, trace 31486 c {} = .ok tr ∧ isDecisive 31486 = false ∧ tr.bypassed = false ∧ tr.final = 36210 ∧
      isDecisive tr.final = true := by
  have hcontext : Context.ofPosition Board.start.toPosition 0 (Line.advantageOf Board.start.toPosition) =
      ⟨0, 0, 8000, 0, 0⟩ := by decide +kernel
  rw [hcontext]
  exact ⟨⟨31486, false, 3168, 0, 36210, 0, 36210⟩, by decide, by decide, rfl, rfl, by decide⟩

end Score

end ChessEval
