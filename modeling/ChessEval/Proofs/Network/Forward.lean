/-
  ChessEval.Proofs.Network.Forward — the forward pass computes what it stands for.

  Every lane of either side is a unit, and adds one term to the sum: its activation times
  its output weight. However large weights, bias and lanes are, a term fits 32 bits and no
  sum of terms comes near the 64 bits in which they are added up.

  - `toInt_weighted`: a term in words is the term.
  - `abs_sum_term_le`: so many terms at most, whichever they are and in whatever order.
  - `toInt_dotUpTo`: so the sum is exact after every lane.
  - `evaluate_eq_tdiv`, `abs_evaluate_le`: the score is exact too, and within 32 bits.
  - `evaluate_of_weightless`: without output weights it is the bias alone.
  - `forward_pass_exact`: all this together, and how far the two divisions cut the score.
-/

import ChessEval.Proofs.Network.Sums
import ChessEval.Proofs.Words
import Mathlib.Algebra.BigOperators.Fin
import Mathlib.Algebra.Order.BigOperators.Group.Finset

namespace ChessEval

/-! ## Terms -/

namespace Lanes

/-- The activation of a lane: its value clipped to 0 … 255, squared. -/
def activation (x : Int16) : Int := max 0 (min x.toInt 255) * max 0 (min x.toInt 255)

theorem activation_bounds (x : Int16) : 0 ≤ activation x ∧ activation x ≤ 65025 := by
  have hlow : 0 ≤ max 0 (min x.toInt 255) := le_max_left _ _
  have hhigh : max 0 (min x.toInt 255) ≤ 255 := by omega
  exact ⟨mul_nonneg hlow hlow, mul_le_mul hhigh hhigh hlow (by decide)⟩

theorem fits_activation (x : Int16) : Fits Int32.size (activation x) := by
  obtain ⟨hlow, hhigh⟩ := activation_bounds x
  exact fits_of_abs_le ((abs_of_nonneg hlow).trans_le hhigh) (by decide)

theorem abs_weighted_le (x w : Int16) : |activation x * w.toInt| ≤ 2130739200 := by
  obtain ⟨hlow, hhigh⟩ := activation_bounds x
  have hw : |w.toInt| ≤ 32768 := abs_le.mpr ⟨w.le_toInt, w.toInt_lt.le⟩
  rw [abs_mul, abs_of_nonneg hlow]
  exact mul_le_mul hhigh hw (abs_nonneg _) (by decide)

theorem fits_weighted (x w : Int16) : Fits Int32.size (activation x * w.toInt) :=
  fits_of_abs_le (abs_weighted_le x w) (by decide)

theorem toInt_clip (x : Int16) : (clip x).toInt = max 0 (min x.toInt 255) := by
  have hscale : activationScale.toInt = 255 := rfl
  unfold clip
  simp only [Int16.lt_iff_toInt_lt, hscale, Int16.toInt_zero]
  split
  · rw [Int32.toInt_zero]
    omega
  · split
    · rw [Int16.toInt_toInt32, hscale]
      omega
    · rw [Int16.toInt_toInt32]
      omega

theorem toInt_clip_mul_clip (x : Int16) : (clip x * clip x).toInt = activation x := by
  rw [Int32.toInt_mul, toInt_clip]
  exact (fits_activation x).bmod_eq

theorem toInt_weighted (x w : Int16) : (weighted x w).toInt = activation x * w.toInt := by
  rw [weighted, Int32.toInt_mul, toInt_clip_mul_clip, Int16.toInt_toInt32]
  exact (fits_weighted x w).bmod_eq

/-! ## Sums of terms -/

theorem abs_sum_weighted_le {ι : Type} (units : Finset ι) (x w : ι → Int16) :
    |∑ u ∈ units, activation (x u) * (w u).toInt| ≤ units.card * 2130739200 :=
  calc |∑ u ∈ units, activation (x u) * (w u).toInt| ≤ ∑ u ∈ units, |activation (x u) * (w u).toInt| :=
        Finset.abs_sum_le_sum_abs _ _
    _ ≤ ∑ _u ∈ units, 2130739200 := Finset.sum_le_sum fun u _ => abs_weighted_le (x u) (w u)
    _ = units.card * 2130739200 := by rw [Finset.sum_const, nsmul_eq_mul]

variable (x w : Lanes)

/-- The sum of `dot` when it has come through the first `k` lanes. -/
def dotUpTo (k : Nat) (hk : k ≤ hiddenSize) : Int64 :=
  Fin.foldl k (fun s i => s + (weighted (x.get (i.castLE hk)) (w.get (i.castLE hk))).toInt64) 0

theorem dotUpTo_all : x.dotUpTo w hiddenSize le_rfl = x.dot w := rfl

theorem dotUpTo_succ (k : Nat) (hk : k + 1 ≤ hiddenSize) :
    x.dotUpTo w (k + 1) hk =
      x.dotUpTo w k (Nat.le_of_succ_le hk) + (weighted (x.get ⟨k, hk⟩) (w.get ⟨k, hk⟩)).toInt64 :=
  Fin.foldl_succ_last _ _

theorem toInt_dotUpTo (k : Nat) (hk : k ≤ hiddenSize) :
    (x.dotUpTo w k hk).toInt = ∑ j : Fin k, activation (x.get (j.castLE hk)) * (w.get (j.castLE hk)).toInt := by
  induction k with
  | zero => rfl
  | succ k ih =>
    -- the sum wraps nowhere on the way because the terms so far are few enough, whatever they are
    have hbound := abs_sum_weighted_le (Finset.univ : Finset (Fin (k + 1)))
      (fun j => x.get (j.castLE hk)) (fun j => w.get (j.castLE hk))
    have hcount : k + 1 ≤ 768 := hk
    rw [Finset.card_univ, Fintype.card_fin] at hbound
    have hfits : Fits Int64.size (∑ j : Fin (k + 1), activation (x.get (j.castLE hk)) * (w.get (j.castLE hk)).toInt) :=
      fits_of_abs_le hbound (by simp only [Int64.size]; omega)
    rw [Fin.sum_univ_castSucc] at hfits ⊢
    rw [dotUpTo_succ, Int64.toInt_add, ih, Int32.toInt_toInt64, toInt_weighted]
    exact hfits.bmod_eq

theorem toInt_dot : (x.dot w).toInt = ∑ j, activation (x.get j) * (w.get j).toInt := by
  rw [← dotUpTo_all, toInt_dotUpTo]
  rfl

end Lanes

theorem Color.sum_eq (f : Color → Int) (c : Color) : ∑ c', f c' = f c + f c.opponent := by
  have hsum : ∑ c', f c' = f .white + f .black := Finset.sum_pair (by decide)
  cases c with
  | white => exact hsum
  | black => exact hsum.trans (add_comm _ _)

namespace Network

variable (net : Network) (a : Accumulator) (toMove : Color)

/-- The output weights for the lanes of one side. -/
def outputWeights (c : Color) : Lanes := if c = toMove then net.own else net.other

/-- What one lane of one side adds to the sum. -/
def term (u : Color × Fin hiddenSize) : Int :=
  Lanes.activation ((a.lanes u.1).get u.2) * ((net.outputWeights toMove u.1).get u.2).toInt

/-- The sum over the lanes of both sides. -/
def outputSum : Int := ∑ u, net.term a toMove u

theorem card_units : Fintype.card (Color × Fin hiddenSize) = 1536 := by
  rw [Fintype.card_prod, Fintype.card_fin]
  rfl

theorem abs_sum_term_le (units : Finset (Color × Fin hiddenSize)) :
    |∑ u ∈ units, net.term a toMove u| ≤ 3272815411200 := by
  have hcount : units.card ≤ 1536 := units.card_le_univ.trans_eq card_units
  have hbound := Lanes.abs_sum_weighted_le units (fun u => (a.lanes u.1).get u.2)
    (fun u => (net.outputWeights toMove u.1).get u.2)
  refine hbound.trans ?_
  omega

theorem toInt_dot_add_dot :
    ((a.lanes toMove).dot net.own + (a.lanes toMove.opponent).dot net.other).toInt = net.outputSum a toMove := by
  have hopponent : toMove.opponent ≠ toMove := by cases toMove <;> decide
  have hsum : net.outputSum a toMove =
      ((a.lanes toMove).dot net.own).toInt + ((a.lanes toMove.opponent).dot net.other).toInt := by
    rw [outputSum, Fintype.sum_prod_type, Color.sum_eq _ toMove, Lanes.toInt_dot, Lanes.toInt_dot]
    simp only [term, outputWeights, if_pos, if_neg hopponent]
  rw [Int64.toInt_add, ← hsum]
  exact (fits_of_abs_le (abs_sum_term_le net a toMove Finset.univ) (by decide)).bmod_eq

/-! ## The score -/

/-- The sum over 255, with the output bias. -/
def biased : Int := (net.outputSum a toMove).tdiv 255 + net.outputBias.toInt

theorem abs_biased_le : |net.biased a toMove| ≤ 12834603008 := by
  have hsum : |net.outputSum a toMove| ≤ 3272815411200 := abs_sum_term_le net a toMove Finset.univ
  have hquotient : |(net.outputSum a toMove).tdiv 255| ≤ 12834570240 := by
    rw [abs_tdiv (by decide)]
    omega
  have hbias : |net.outputBias.toInt| ≤ 32768 := abs_le.mpr ⟨net.outputBias.le_toInt, net.outputBias.toInt_lt.le⟩
  have hboth := abs_add_le ((net.outputSum a toMove).tdiv 255) net.outputBias.toInt
  rw [biased]
  omega

theorem abs_scored_le : |(net.biased a toMove * 400).tdiv 16320| ≤ 314573603 := by
  have hbiased := abs_biased_le net a toMove
  rw [abs_tdiv (by decide), abs_mul]
  show |net.biased a toMove| * 400 / 16320 ≤ 314573603
  omega

/-- The score in words is the score: nothing is lost on the way or in the last narrowing. -/
theorem evaluate_eq_tdiv : net.evaluate a toMove = (net.biased a toMove * 400).tdiv 16320 := by
  let sum := (a.lanes toMove).dot net.own + (a.lanes toMove.opponent).dot net.other
  let output := sum / activationScale.toInt64 + net.outputBias.toInt64
  have hbiased := abs_biased_le net a toMove
  have hfits : Fits Int64.size (net.biased a toMove) := fits_of_abs_le hbiased (by decide)
  have hfits' : Fits Int64.size (net.biased a toMove * 400) := by
    refine fits_of_abs_le (abs_mul _ _).le ?_
    show 2 * (|net.biased a toMove| * 400) < 18446744073709551616
    omega
  have houtput : output.toInt = net.biased a toMove := by
    have hscale : activationScale.toInt64.toInt = 255 := by decide
    rw [Int64.toInt_add, Int64.toInt_div_of_ne_right _ _ (by decide), toInt_dot_add_dot, hscale, Int16.toInt_toInt64]
    exact hfits.bmod_eq
  have hproduct : (output * scoreScale).toInt = net.biased a toMove * 400 := by
    have hscale : scoreScale.toInt = 400 := by decide
    rw [Int64.toInt_mul, houtput, hscale]
    exact hfits'.bmod_eq
  have hscale : (activationScale.toInt64 * weightScale).toInt = 16320 := by decide
  have hscored : Fits Int32.size ((net.biased a toMove * 400).tdiv 16320) :=
    fits_of_abs_le (abs_scored_le net a toMove) (by decide)
  show (output * scoreScale / (activationScale.toInt64 * weightScale)).toInt32.toInt = _
  rw [Int64.toInt_toInt32, Int64.toInt_div_of_ne_right _ _ (by decide), hproduct, hscale]
  exact hscored.bmod_eq

theorem abs_evaluate_le : |net.evaluate a toMove| ≤ 314573603 := by
  rw [evaluate_eq_tdiv]
  exact abs_scored_le net a toMove

variable {net a toMove}

theorem outputSum_of_weightless (hown : net.own = .zero) (hother : net.other = .zero) : net.outputSum a toMove = 0 := by
  refine Finset.sum_eq_zero fun u _ => ?_
  have hweight : (net.outputWeights toMove u.1).get u.2 = 0 := by
    rw [outputWeights, hown, hother, ite_self]
    exact Vector.getElem_replicate u.2.isLt
  rw [term, hweight, Int16.toInt_zero, mul_zero]

/-- Without output weights every position has the score of the output bias. -/
theorem evaluate_of_weightless (hown : net.own = .zero) (hother : net.other = .zero) :
    net.evaluate a toMove = (net.outputBias.toInt * 400).tdiv 16320 := by
  rw [evaluate_eq_tdiv, biased, outputSum_of_weightless hown hother, Int.zero_tdiv, zero_add]

variable (net a toMove)

/-- The sum over 255, with the output bias, times 400 over 255 · 64, without a cut. -/
def exactScore : ℚ := ((net.outputSum a toMove : ℚ) / 255 + net.outputBias.toInt) * 400 / 16320

theorem evaluate_eq_cut :
    net.evaluate a toMove = cut ((cut ((net.outputSum a toMove : ℚ) / 255) + net.outputBias.toInt) * 400 / 16320) := by
  have hsum : cut ((net.outputSum a toMove : ℚ) / 255) = (net.outputSum a toMove).tdiv 255 :=
    cut_intCast_div _ (by decide)
  have hscore := cut_intCast_div (net.biased a toMove * 400) (show 0 < 16320 by decide)
  rw [evaluate_eq_tdiv, hsum]
  rw [biased] at *
  push_cast at hscore
  exact hscore.symm

/-- The first cut is scaled by 400 over 16320, the second is not. -/
theorem abs_evaluate_sub_lt : |(net.evaluate a toMove : ℚ) - net.exactScore a toMove| < 1 + 5 / 204 := by
  have hinner := abs_cut_sub_lt ((net.outputSum a toMove : ℚ) / 255)
  have houter := abs_cut_sub_lt ((cut ((net.outputSum a toMove : ℚ) / 255) + net.outputBias.toInt) * 400 / 16320)
  rw [← evaluate_eq_cut] at houter
  rw [abs_lt] at *
  unfold exactScore
  constructor <;> linarith

/-- However large weights, biases and lanes are: in 32 bits a lane's activation and its term are exact;
    no sum of terms leaves 64 bits, so the running sum of either side is exact after every lane; the
    score is the sum cut at the first division, biased, scaled and cut at the second, far within 32
    bits; and it is off by less than 1 + 5/204. -/
theorem forward_pass_exact :
    (∀ (c : Color) (j : Fin hiddenSize),
      let x := (a.lanes c).get j
      let w := (net.outputWeights toMove c).get j
      (Lanes.clip x * Lanes.clip x).toInt = Lanes.activation x ∧ Fits Int32.size (Lanes.activation x) ∧
        (Lanes.weighted x w).toInt = net.term a toMove (c, j) ∧ Fits Int32.size (net.term a toMove (c, j))) ∧
    (∀ units : Finset (Color × Fin hiddenSize), Fits Int64.size (∑ u ∈ units, net.term a toMove u)) ∧
    (∀ (c : Color) (k : Nat) (hk : k ≤ hiddenSize),
      ((a.lanes c).dotUpTo (net.outputWeights toMove c) k hk).toInt = ∑ j : Fin k, net.term a toMove (c, j.castLE hk)) ∧
    net.evaluate a toMove = cut ((cut ((net.outputSum a toMove : ℚ) / 255) + net.outputBias.toInt) * 400 / 16320) ∧
    |net.evaluate a toMove| ≤ 314573603 ∧
    |(net.evaluate a toMove : ℚ) - net.exactScore a toMove| < 1 + 5 / 204 := by
  refine ⟨fun c j => ?_, fun units => ?_, fun c k hk => ?_, ?_, ?_, ?_⟩
  · exact ⟨Lanes.toInt_clip_mul_clip _, Lanes.fits_activation _, Lanes.toInt_weighted _ _, Lanes.fits_weighted _ _⟩
  · exact fits_of_abs_le (abs_sum_term_le net a toMove units) (by decide)
  · exact Lanes.toInt_dotUpTo _ _ k hk
  · exact evaluate_eq_cut net a toMove
  · exact abs_evaluate_le net a toMove
  · exact abs_evaluate_sub_lt net a toMove

end Network

end ChessEval
