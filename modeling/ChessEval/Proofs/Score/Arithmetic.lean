/-
  ChessEval.Proofs.Score.Arithmetic — the adjustments in words, whatever becomes of a result that
  does not fit.

  The library adjusts scores as integers and keeps two of them to 32 bits. A build of it works in
  words: 32 bits for scores, material and tuning values, 64 bits inside a scaling. Here the
  adjustments are taken operation by operation, and an `Arithmetic` says what becomes of each result.
  - `trapping`, `wrapping`: the two builds. One stops at a result that does not fit its word, the
    other keeps its low bits. Both keep the low bits of a cast and stop at a quotient that does not fit.
  - `checked`: it stops at a cast that loses bits as well, so what it answers is exact.
    `NoOverflow` says that it does not have to stop.
  - `library`, `plain`: there are no words. The library's casts keep the low bits all the same; with casts
    that keep everything an adjustment comes to what it stands for (`Tuning.adjusted`).

  One comparison serves for all of them: where nothing overflows, an arithmetic that keeps what fits
  (`Faithful`) does as `checked` does (`trace_of_noOverflow`), and so does the library (`Score.trace_of_noOverflow`).
-/

import ChessEval.Proofs.Score.Divisors
import ChessEval.Proofs.Words

namespace ChessEval

/-- Why a calculation in words stops. -/
inductive WordFault where
  /-- A result does not fit its word. -/
  | overflow
  | fault (f : Fault)
  deriving DecidableEq, Repr

/-- What a calculation makes of its results, each with the number of values that its word has. -/
structure Arithmetic where
  /-- Of a sum, a difference, a product or an opposite. -/
  keep : Nat → Int → Except WordFault Int
  /-- Of a quotient. -/
  divide : Nat → Int → Except WordFault Int
  /-- Of a number that goes to a narrower word. -/
  cast : Nat → Int → Except WordFault Int

namespace Arithmetic

open Score (draw isDecisive)

/-- The number, if it fits. -/
def trap (size : Nat) (n : Int) : Except WordFault Int := if Fits size n then .ok n else .error .overflow

/-- The number of the word that has the same low bits. -/
def wrap (size : Nat) (n : Int) : Except WordFault Int := .ok (n.bmod size)

def checked : Arithmetic := ⟨trap, trap, trap⟩

def trapping : Arithmetic := ⟨trap, trap, wrap⟩

def wrapping : Arithmetic := ⟨wrap, trap, wrap⟩

def unbounded (cast : Nat → Int → Int) : Arithmetic :=
  ⟨fun _ n => .ok n, fun _ n => .ok n, fun size n => .ok (cast size n)⟩

abbrev library : Arithmetic := unbounded fun size n => n.bmod size

abbrev plain : Arithmetic := unbounded fun _ n => n

theorem trap_of_fits {size : Nat} {n : Int} (h : Fits size n) : trap size n = .ok n := if_pos h

theorem trap_eq_ok {size : Nat} {n m : Int} (h : trap size n = .ok m) : Fits size n ∧ m = n := by
  unfold trap at h
  split at h
  case isTrue hfits =>
    cases h
    exact ⟨hfits, rfl⟩
  case isFalse => cases h

theorem checked_keep_bind {α : Type} {size : Nat} {n : Int} (h : Fits size n) (f : Int → Except WordFault α) :
    checked.keep size n >>= f = f n := by
  rw [show checked.keep size n = .ok n from trap_of_fits h, ok_bind]

variable (w : Arithmetic)

def quotient (size : Nat) (n d : Int) : Except WordFault Int :=
  if d = 0 then .error (.fault .zeroDivisor) else w.divide size (n.tdiv d)

/-! ## Material -/

def add (m : Material) (p : Piece) : Except WordFault Material :=
  match p.color with
  | .white => do return { m with white := ← w.keep Int32.size (m.white + p.kind.value) }
  | .black => do return { m with black := ← w.keep Int32.size (m.black + p.kind.value) }

def material (pos : Position) : Except WordFault Material := pos.occupied.foldlM (fun m p => w.add m p.piece) .zero

def advantage (m : Material) : Color → Except WordFault Int
  | .white => w.keep Int32.size (m.white - m.black)
  | .black => w.keep Int32.size (m.black - m.white)

def context (pos : Position) (ply : Nat) (rootAdvantage : Int) : Except WordFault Context := do
  let m ← w.material pos
  let total ← w.keep Int32.size (m.white + m.black)
  let advantage ← w.advantage m pos.sideToMove
  return { ply, halfmoveClock := pos.halfmoveClock.toNat, total, advantage, rootAdvantage }

/-! ## Adjustments -/

/-- What a lead beyond the threshold earns. -/
def reward (lead : Int) (t : Tuning) : Except WordFault Int := do
  let beyond ← w.keep Int32.size (lead - t.excessThreshold)
  let share ← w.quotient Int32.size beyond t.excessDivisor
  w.keep Int32.size (t.excessBase + share)

def excessBonus (score advantage : Int) (t : Tuning) : Except WordFault Int :=
  if 0 < score then do
    let bar ← w.keep Int32.size (advantage + t.excessThreshold)
    if bar < score then
      let lead ← w.keep Int32.size (score - advantage)
      w.reward lead t
    else return 0
  else if score < 0 then do
    let bar ← w.keep Int32.size (advantage - t.excessThreshold)
    if score < bar then
      let lead ← w.keep Int32.size (advantage - score)
      let bonus ← w.reward lead t
      w.keep Int32.size (-bonus)
    else return 0
  else return 0

def sacrificeBonus (score : Int) (c : Context) (t : Tuning) : Except WordFault Int :=
  if c.ply % 2 ≠ 0 ∨ c.total ≤ t.sacrificeFloor then return 0
  else do
    let bar ← w.keep Int32.size (c.rootAdvantage - t.sacrificeTrigger)
    if bar ≤ c.advantage then return 0
    else
      let winning ← w.keep Int32.size (draw + t.sacrificeWinningMargin)
      return if winning < score then t.sacrificeBonusWinning else if draw < score then t.sacrificeBonusAhead else 0

def scale (score total : Int) (t : Tuning) : Except WordFault Int := do
  let base ← w.keep Int64.size (t.scalingBase * t.scalingMaterialDivisor)
  let numerator ← w.keep Int64.size (base + total)
  let denominator ← w.keep Int64.size (t.scalingMaterialDivisor * t.scalingDenominator)
  let product ← w.keep Int64.size (score * numerator)
  let scaled ← w.quotient Int64.size product denominator
  w.cast Int32.size scaled

def contempt (advantage : Int) (t : Tuning) : Except WordFault Int :=
  if advantage < 0 then w.keep Int32.size (draw + t.contempt)
  else if 0 < advantage then w.keep Int32.size (draw - t.contempt)
  else return draw

def fade (score : Int) (clock : Nat) (t : Tuning) : Except WordFault Int :=
  if clock = 0 ∨ t.fiftyMoveHorizon = 0 then return score
  else do
    let product ← w.keep Int64.size (score * (t.fiftyMoveHorizon - clock : Nat))
    let faded ← w.quotient Int64.size product t.fiftyMoveHorizon
    w.cast Int32.size faded

/-- The adjustment of a score that is not decisive, without its last stage. -/
def unfaded (raw : Int) (c : Context) (t : Tuning) : Except WordFault Trace := do
  let excess ← w.excessBonus raw c.advantage t
  let sacrifice ← w.sacrificeBonus raw c t
  let outrun ← w.keep Int32.size (raw + excess)
  let boosted ← w.keep Int32.size (outrun + sacrifice)
  let scaled ← w.scale boosted c.total t
  let contempt ← w.contempt c.advantage t
  let unfaded ← w.keep Int32.size (scaled + contempt)
  return { raw, bypassed := false, excess, sacrifice, scaled, contempt, final := unfaded }

def trace (raw : Int) (c : Context) (t : Tuning) : Except WordFault Trace :=
  if isDecisive raw then
    .ok { raw, bypassed := true, excess := 0, sacrifice := 0, scaled := raw, contempt := 0, final := raw }
  else do
    let tr ← w.unfaded raw c t
    return { tr with final := ← w.fade tr.final c.halfmoveClock t }

theorem checked_quotient {size : Nat} {n d : Int} (hd : d ≠ 0) (h : Fits size (n.tdiv d)) :
    checked.quotient size n d = .ok (n.tdiv d) :=
  (if_neg hd).trans (trap_of_fits h)

theorem trace_of_not_decisive {raw : Int} (h : isDecisive raw = false) (c : Context) (t : Tuning) :
    w.trace raw c t = do
      let tr ← w.unfaded raw c t
      return { tr with final := ← w.fade tr.final c.halfmoveClock t } := by
  rw [trace, h]
  rfl

end Arithmetic

/-- No operation of the adjustment leaves its word and no cast loses a bit. -/
def NoOverflow (raw : Int) (c : Context) (t : Tuning) : Prop := Arithmetic.checked.trace raw c t ≠ .error .overflow

instance (raw : Int) (c : Context) (t : Tuning) : Decidable (NoOverflow raw c t) := inferInstanceAs (Decidable (_ ≠ _))

/-! ## Where nothing overflows -/

/-- The first calculation overflows, or it comes to what the second does, also if that is a fault. -/
def SameUnlessOverflow {α : Type} (x y : Except WordFault α) : Prop := x = .error .overflow ∨ x = y

namespace SameUnlessOverflow

variable {α β : Type} {x y : Except WordFault α}

theorem rfl : SameUnlessOverflow x x := .inr (Eq.refl _)

theorem bind {f g : α → Except WordFault β} (h : SameUnlessOverflow x y) (hf : ∀ a, SameUnlessOverflow (f a) (g a)) :
    SameUnlessOverflow (x >>= f) (y >>= g) := by
  rcases h with rfl | rfl
  · exact .inl (Eq.refl _)
  · cases x with
    | error e => exact rfl
    | ok a => exact hf a

end SameUnlessOverflow

namespace Arithmetic

/-- A result that fits its word is kept as it is. -/
structure Faithful (w : Arithmetic) : Prop where
  keep {size : Nat} {n : Int} : Fits size n → w.keep size n = .ok n
  divide {size : Nat} {n : Int} : Fits size n → w.divide size n = .ok n
  cast {size : Nat} {n : Int} : Fits size n → w.cast size n = .ok n

theorem wrap_of_fits {size : Nat} {n : Int} (h : Fits size n) : wrap size n = .ok n := congrArg _ h.bmod_eq

theorem checked_faithful : checked.Faithful := ⟨trap_of_fits, trap_of_fits, trap_of_fits⟩

theorem trapping_faithful : trapping.Faithful := ⟨trap_of_fits, trap_of_fits, wrap_of_fits⟩

theorem wrapping_faithful : wrapping.Faithful := ⟨wrap_of_fits, trap_of_fits, wrap_of_fits⟩

theorem unbounded_faithful {cast : Nat → Int → Int} (h : ∀ size n, Fits size n → cast size n = n) :
    (unbounded cast).Faithful :=
  ⟨fun _ => rfl, fun _ => rfl, fun hfits => congrArg _ (h _ _ hfits)⟩

theorem library_faithful : library.Faithful := unbounded_faithful fun _ _ => Fits.bmod_eq

theorem plain_faithful : plain.Faithful := unbounded_faithful fun _ _ _ => rfl

theorem trap_same {size : Nat} {n : Int} {x : Except WordFault Int} (h : Fits size n → x = .ok n) :
    SameUnlessOverflow (trap size n) x := by
  unfold trap
  split
  case isTrue hfits => exact .inr (h hfits).symm
  case isFalse => exact .inl rfl

namespace Faithful

variable {w : Arithmetic} (hw : w.Faithful) {t : Tuning}

include hw

theorem keep_same (size : Nat) (n : Int) : SameUnlessOverflow (checked.keep size n) (w.keep size n) := trap_same hw.keep

theorem cast_same (size : Nat) (n : Int) : SameUnlessOverflow (checked.cast size n) (w.cast size n) := trap_same hw.cast

theorem quotient_same (size : Nat) (n d : Int) :
    SameUnlessOverflow (checked.quotient size n d) (w.quotient size n d) := by
  unfold quotient
  split
  · exact .rfl
  · exact trap_same hw.divide

theorem reward_same (lead : Int) : SameUnlessOverflow (checked.reward lead t) (w.reward lead t) :=
  (hw.keep_same _ _).bind fun _ => (hw.quotient_same _ _ _).bind fun _ => hw.keep_same _ _

theorem excessBonus_same (score advantage : Int) :
    SameUnlessOverflow (checked.excessBonus score advantage t) (w.excessBonus score advantage t) := by
  unfold excessBonus
  split
  · refine (hw.keep_same _ _).bind fun bar => ?_
    split
    · exact (hw.keep_same _ _).bind fun _ => hw.reward_same _
    · exact .rfl
  · split
    · refine (hw.keep_same _ _).bind fun bar => ?_
      split
      · exact (hw.keep_same _ _).bind fun _ => (hw.reward_same _).bind fun _ => hw.keep_same _ _
      · exact .rfl
    · exact .rfl

theorem sacrificeBonus_same (score : Int) (c : Context) :
    SameUnlessOverflow (checked.sacrificeBonus score c t) (w.sacrificeBonus score c t) := by
  unfold sacrificeBonus
  split
  · exact .rfl
  · refine (hw.keep_same _ _).bind fun bar => ?_
    split
    · exact .rfl
    · exact (hw.keep_same _ _).bind fun _ => .rfl

theorem scale_same (score total : Int) : SameUnlessOverflow (checked.scale score total t) (w.scale score total t) :=
  (hw.keep_same _ _).bind fun _ => (hw.keep_same _ _).bind fun _ => (hw.keep_same _ _).bind fun _ =>
    (hw.keep_same _ _).bind fun _ => (hw.quotient_same _ _ _).bind fun _ => hw.cast_same _ _

theorem contempt_same (advantage : Int) : SameUnlessOverflow (checked.contempt advantage t) (w.contempt advantage t) := by
  unfold contempt
  split
  · exact hw.keep_same _ _
  · split
    · exact hw.keep_same _ _
    · exact .rfl

theorem fade_same (score : Int) (clock : Nat) :
    SameUnlessOverflow (checked.fade score clock t) (w.fade score clock t) := by
  unfold fade
  split
  · exact .rfl
  · exact (hw.keep_same _ _).bind fun _ => (hw.quotient_same _ _ _).bind fun _ => hw.cast_same _ _

theorem unfaded_same (raw : Int) (c : Context) : SameUnlessOverflow (checked.unfaded raw c t) (w.unfaded raw c t) :=
  (hw.excessBonus_same _ _).bind fun _ => (hw.sacrificeBonus_same _ _).bind fun _ => (hw.keep_same _ _).bind fun _ =>
    (hw.keep_same _ _).bind fun _ => (hw.scale_same _ _).bind fun _ => (hw.contempt_same _).bind fun _ =>
      (hw.keep_same _ _).bind fun _ => .rfl

theorem trace_same (raw : Int) (c : Context) : SameUnlessOverflow (checked.trace raw c t) (w.trace raw c t) := by
  unfold trace
  split
  · exact .rfl
  · exact (hw.unfaded_same _ _).bind fun _ => (hw.fade_same _ _).bind fun _ => .rfl

/-- Where nothing overflows, it makes no difference what would become of a result that does not fit. -/
theorem trace_of_noOverflow {raw : Int} {c : Context} (h : NoOverflow raw c t) :
    w.trace raw c t = checked.trace raw c t :=
  ((hw.trace_same raw c).resolve_left h).symm

end Faithful

end Arithmetic

/-! ## What an adjustment stands for -/

namespace Tuning

open Score (isDecisive sacrificeBonus)

variable (t : Tuning)

/-- What a lead beyond the threshold earns. -/
def reward (lead : Int) : Int := t.excessBase + (lead - t.excessThreshold).tdiv t.excessDivisor

def excess (score advantage : Int) : Int :=
  if 0 < score ∧ advantage + t.excessThreshold < score then t.reward (score - advantage)
  else if score < 0 ∧ score < advantage - t.excessThreshold then -t.reward (advantage - score)
  else 0

/-- The score with both bonuses. -/
def boosted (raw : Int) (c : Context) : Int := raw + t.excess raw c.advantage + sacrificeBonus raw c t

def scaled (score total : Int) : Int :=
  (score * (t.scalingBase * t.scalingMaterialDivisor + total)).tdiv (t.scalingMaterialDivisor * t.scalingDenominator)

/-- The scaled score with contempt, before it fades. -/
def unfaded (raw : Int) (c : Context) : Int := t.scaled (t.boosted raw c) c.total + Score.contempt c.advantage t

def faded (score : Int) (clock : Nat) : Int :=
  if clock = 0 ∨ t.fiftyMoveHorizon = 0 then score
  else (score * (t.fiftyMoveHorizon - clock : Nat)).tdiv t.fiftyMoveHorizon

/-- The trace in plain integers of a score that is not decisive and has not faded. -/
def fresh (raw : Int) (c : Context) : Trace :=
  { raw, bypassed := false, excess := t.excess raw c.advantage, sacrifice := sacrificeBonus raw c t,
    scaled := t.scaled (t.boosted raw c) c.total, contempt := Score.contempt c.advantage t, final := t.unfaded raw c }

/-- The trace in plain integers. -/
def adjusted (raw : Int) (c : Context) : Trace :=
  if isDecisive raw then
    { raw, bypassed := true, excess := 0, sacrifice := 0, scaled := raw, contempt := 0, final := raw }
  else { t.fresh raw c with final := t.faded (t.unfaded raw c) c.halfmoveClock }

theorem adjusted_of_not_decisive {raw : Int} (h : isDecisive raw = false) (c : Context) :
    t.adjusted raw c = { t.fresh raw c with final := t.faded (t.unfaded raw c) c.halfmoveClock } := by
  rw [adjusted, h]
  rfl

end Tuning

theorem Score.excessBonus_eq {t : Tuning} (h : t.excessDivisor ≠ 0) (score advantage : Int) :
    excessBonus score advantage t = .ok (t.excess score advantage) := by
  unfold excessBonus Tuning.excess
  rw [quotient_ok h, quotient_ok h]
  split
  · rfl
  · split <;> rfl

/-! ## Without words -/

namespace Arithmetic

variable {cast : Nat → Int → Int} {t : Tuning}

theorem unbounded_keep (size : Nat) (n : Int) : (unbounded cast).keep size n = .ok n := rfl

theorem unbounded_quotient (size : Nat) (n d : Int) :
    (unbounded cast).quotient size n d = (Score.quotient n d).mapError .fault := by
  unfold quotient Score.quotient
  split <;> rfl

theorem unbounded_reward (lead : Int) :
    (unbounded cast).reward lead t =
      (do return t.excessBase + (← Score.quotient (lead - t.excessThreshold) t.excessDivisor) : Except Fault Int).mapError
        .fault := by
  rw [mapError_bind, ← unbounded_quotient]
  rfl

theorem unbounded_excessBonus (score advantage : Int) :
    (unbounded cast).excessBonus score advantage t = (Score.excessBonus score advantage t).mapError .fault := by
  unfold excessBonus Score.excessBonus
  simp only [unbounded_keep, ok_bind, unbounded_reward]
  -- in words the bar is computed only after the sign is known, so sign and bar are split one after the other
  by_cases hpos : 0 < score
  · have hneg : ¬ score < 0 := by omega
    by_cases hbar : advantage + t.excessThreshold < score
    · simp only [hpos, hbar, and_self, if_true]
    · simp only [hpos, hbar, hneg, and_false, false_and, if_true, if_false]
      rfl
  · by_cases hneg : score < 0
    · by_cases hbar : score < advantage - t.excessThreshold
      · simp only [hpos, hneg, hbar, false_and, and_self, if_true, if_false]
        cases Score.quotient (advantage - score - t.excessThreshold) t.excessDivisor <;> rfl
      · simp only [hpos, hneg, hbar, false_and, and_false, if_true, if_false]
        rfl
    · simp only [hpos, hneg, false_and, if_false]
      rfl

theorem unbounded_sacrificeBonus (score : Int) (c : Context) :
    (unbounded cast).sacrificeBonus score c t = .ok (Score.sacrificeBonus score c t) := by
  unfold sacrificeBonus Score.sacrificeBonus
  simp only [unbounded_keep, ok_bind]
  split_ifs <;> rfl

theorem unbounded_contempt (advantage : Int) :
    (unbounded cast).contempt advantage t = .ok (Score.contempt advantage t) := by
  unfold contempt Score.contempt
  split_ifs <;> rfl

theorem unbounded_fade (score : Int) (clock : Nat) :
    (unbounded cast).fade score clock t =
      .ok (if clock = 0 ∨ t.fiftyMoveHorizon = 0 then score
        else cast Int32.size ((score * (t.fiftyMoveHorizon - clock : Nat)).tdiv t.fiftyMoveHorizon)) := by
  unfold fade
  split
  case isTrue => rfl
  case isFalse h =>
    have hhorizon : (t.fiftyMoveHorizon : Int) ≠ 0 := by omega
    rw [unbounded_keep, ok_bind, unbounded_quotient, Score.quotient_ok hhorizon]
    rfl

theorem library_trace (raw : Int) (c : Context) :
    library.trace raw c t = (Score.trace raw c t).mapError .fault := by
  have hscale (score : Int) :
      library.scale score c.total t = (Score.scale score c.total t).mapError .fault := by
    simp only [scale, Score.scale, unbounded_keep, ok_bind, unbounded_quotient, mapError_bind]
    rfl
  have hfade (score : Int) : library.fade score c.halfmoveClock t = .ok (Score.fade score c.halfmoveClock t) :=
    unbounded_fade _ _
  unfold trace Score.trace unfaded
  split
  · rfl
  · simp only [unbounded_excessBonus, unbounded_sacrificeBonus, unbounded_keep, unbounded_contempt, ok_bind, hscale, hfade,
      bind_assoc, mapError_bind]
    rfl

theorem plain_unfaded (ht : t.NonzeroDivisors) (raw : Int) (c : Context) :
    plain.unfaded raw c t = .ok (t.fresh raw c) := by
  obtain ⟨he, hm, hd⟩ := ht
  have hscale (score : Int) : plain.scale score c.total t = .ok (t.scaled score c.total) := by
    simp only [scale, unbounded_keep, ok_bind, unbounded_quotient, Score.quotient_ok (mul_ne_zero hm hd)]
    rfl
  simp only [unfaded, unbounded_excessBonus, Score.excessBonus_eq he, unbounded_sacrificeBonus, unbounded_keep,
    unbounded_contempt, ok_bind, Except.mapError, hscale]
  rfl

theorem plain_trace (ht : t.NonzeroDivisors) (raw : Int) (c : Context) :
    plain.trace raw c t = .ok (t.adjusted raw c) := by
  have hfade (score : Int) : plain.fade score c.halfmoveClock t = .ok (t.faded score c.halfmoveClock) :=
    unbounded_fade _ _
  unfold trace Tuning.adjusted
  split
  · rfl
  · rw [plain_unfaded ht, ok_bind, hfade]
    rfl

end Arithmetic

/-- Where nothing overflows, the library's adjustment is the checked one, also if that is a fault. -/
theorem NoOverflow.checked_trace {raw : Int} {c : Context} {t : Tuning} (h : NoOverflow raw c t) :
    Arithmetic.checked.trace raw c t = (Score.trace raw c t).mapError .fault := by
  rw [← Arithmetic.library_trace]
  exact (Arithmetic.library_faithful.trace_of_noOverflow h).symm

/-- Where nothing overflows, the trace is the plain one. -/
theorem Score.trace_of_noOverflow {t : Tuning} (ht : t.NonzeroDivisors) {raw : Int} {c : Context}
    (h : NoOverflow raw c t) : Score.trace raw c t = .ok (t.adjusted raw c) := by
  have hplain := Arithmetic.plain_faithful.trace_of_noOverflow h
  rw [Arithmetic.plain_trace ht, h.checked_trace] at hplain
  cases htrace : Score.trace raw c t with
  | error f =>
    rw [htrace] at hplain
    cases hplain
  | ok tr =>
    rw [htrace] at hplain
    cases hplain
    rfl

end ChessEval
