/-
  ChessEval.Proofs.Words — what a word of a fixed width holds, and quotients cut toward zero.

  Two notions tie a calculation in words to the numbers that it stands for:
  - `Fits`: the number is a signed word with so many values.
  - `cut`: the rational without its fraction, which is what a division of words gives.
  A number shrunk toward zero still fits (`Fits.shrunk`), and so does a share of it (`abs_share_le`).
-/

import Mathlib.Algebra.Order.Ring.Abs
import Mathlib.Data.Rat.Floor
import Mathlib.Tactic.Linarith

namespace ChessEval

/-! ## Words -/

/-- The number is a signed word with so many values. -/
def Fits (size : Nat) (n : Int) : Prop := -(size : Int) ≤ 2 * n ∧ 2 * n < size

instance (size : Nat) (n : Int) : Decidable (Fits size n) := inferInstanceAs (Decidable (_ ∧ _))

theorem fits_of_abs_le {size : Nat} {n bound : Int} (h : |n| ≤ bound) (hb : 2 * bound < size) : Fits size n := by
  obtain ⟨hlow, hhigh⟩ := abs_le.mp h
  constructor <;> omega

theorem abs_le_of_fits {size : Nat} {n bound : Int} (h : Fits size n) (hb : size ≤ 2 * bound) : |n| ≤ bound := by
  obtain ⟨hlow, hhigh⟩ := h
  exact abs_le.mpr ⟨by omega, by omega⟩

theorem Fits.mono {size size' : Nat} {n : Int} (h : Fits size n) (hle : size ≤ size') : Fits size' n := by
  obtain ⟨hlow, hhigh⟩ := h
  constructor <;> omega

/-- What lies between zero and a word is a word; the lowest one has no opposite. -/
theorem Fits.shrunk {size : Nat} {n m : Int} (h : Fits size n) (habs : |m| ≤ |n|) (hsign : 0 ≤ n * m) : Fits size m := by
  obtain ⟨hlow, hhigh⟩ := h
  rcases le_or_gt 0 n with hn | hn
  · rw [abs_of_nonneg hn] at habs
    obtain ⟨hm, hm'⟩ := abs_le.mp habs
    constructor <;> omega
  · rw [abs_of_neg hn] at habs
    obtain ⟨hm, -⟩ := abs_le.mp habs
    have hm' : m ≤ 0 := not_lt.mp fun hpos => (mul_neg_of_neg_of_pos hn hpos).not_ge hsign
    constructor <;> omega

/-- Reading a number as a word leaves one that fits as it is. -/
theorem Fits.bmod_eq {size : Nat} {n : Int} (h : Fits size n) : n.bmod size = n := by
  obtain ⟨hlow, hhigh⟩ := h
  exact Int.bmod_eq_of_le_mul_two (by omega) (by omega)

/-- Reading a number as a word makes it no greater, unless it is below all words. -/
theorem bmod_le {size : Nat} {n : Int} (hsize : 0 < size) (h : -(size : Int) ≤ 2 * n) : n.bmod size ≤ n := by
  by_cases hfits : Fits size n
  · exact hfits.bmod_eq.le
  · have habove : (size : Int) ≤ 2 * n := not_lt.mp fun hlt => hfits ⟨h, hlt⟩
    have hword : n.bmod size < ((size : Int) + 1) / 2 := Int.bmod_lt hsize
    omega

/-! ## Quotients -/

/-- The rational cut toward zero. -/
def cut (q : ℚ) : Int := if 0 ≤ q then ⌊q⌋ else ⌈q⌉

theorem cut_intCast_div (a : Int) {b : Nat} (hb : 0 < b) : cut ((a : ℚ) / b) = a.tdiv b := by
  rcases le_or_gt 0 a with ha | ha
  · have hnonneg : (0 : ℚ) ≤ a / b := div_nonneg (Int.cast_nonneg ha) b.cast_nonneg
    rw [cut, if_pos hnonneg, Rat.floor_intCast_div_natCast, Int.tdiv_eq_ediv_of_nonneg ha]
  · have hneg : (a : ℚ) / b < 0 := div_neg_of_neg_of_pos (Int.cast_lt_zero.mpr ha) (Nat.cast_pos.mpr hb)
    rw [cut, if_neg hneg.not_ge, Rat.ceil_intCast_div_natCast, ← Int.tdiv_eq_ediv_of_nonneg (by omega), Int.neg_tdiv,
      neg_neg]

theorem abs_tdiv {b : Int} (hb : 0 < b) (a : Int) : |a.tdiv b| = |a| / b := by
  rcases le_total 0 a with ha | ha
  · rw [Int.tdiv_eq_ediv_of_nonneg ha, abs_of_nonneg ha, abs_of_nonneg (Int.ediv_nonneg ha hb.le)]
  · have hneg : 0 ≤ -a := neg_nonneg.mpr ha
    rw [abs_of_nonpos ha, ← Int.tdiv_eq_ediv_of_nonneg hneg, ← abs_neg, ← Int.neg_tdiv,
      abs_of_nonneg (Int.tdiv_nonneg hneg hb.le)]

theorem abs_mul_natCast_le (a : Int) {k n : Nat} (hk : k ≤ n) : |a * k| ≤ |a| * n := by
  rw [abs_mul, Nat.abs_cast]
  exact mul_le_mul_of_nonneg_left (Int.ofNat_le.mpr hk) (abs_nonneg _)

/-- So many parts of a number are not more than the number. -/
theorem abs_share_le (a : Int) {k n : Nat} (hk : k ≤ n) (hn : 0 < n) : |(a * k).tdiv n| ≤ |a| := by
  have hn' : (0 : Int) < n := Int.natCast_pos.mpr hn
  calc |(a * k).tdiv n| = |a * k| / n := abs_tdiv hn' _
    _ ≤ |a| * n / n := Int.ediv_le_ediv hn' (abs_mul_natCast_le a hk)
    _ = |a| := Int.mul_ediv_cancel _ hn'.ne'

theorem abs_cut_sub_lt (q : ℚ) : |(cut q : ℚ) - q| < 1 := by
  rw [abs_lt]
  unfold cut
  split
  · have hle := Int.floor_le q
    have hlt := Int.lt_floor_add_one q
    constructor <;> linarith
  · have hle := Int.le_ceil q
    have hlt := Int.ceil_lt_add_one q
    constructor <;> linarith

end ChessEval
