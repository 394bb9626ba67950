import Leverage.Lending.Rate
import Mathlib.Algebra.Order.Field.Basic
import Mathlib.Data.Rat.Cast.Order
import Mathlib.Tactic.GCongr
import Mathlib.Tactic.Linarith
import Mathlib.Tactic.Ring

/-!
# The rate curve

The rate on either line of a curve is a floored product with a floored slope, which `climb` gives for
both lines. `rateAt_eq_ok_iff_of_le` and `rateAt_eq_ok_iff_of_lt` open the curve once, on each side of
its kink: up to the kink there is always a rate, past it only if the kink is short of full
utilization and the rate does not fall from there on.

`exists_rateAt_le` says that a lower utilization has a rate wherever a higher one has, and no larger
one. `exactRate` is the curve without floors, and `rateAt_accurate` holds the two against each other:
either floor costs less than one unit, because no way along a line is longer than the scale.
-/

namespace Leverage.RateCurve

variable {curve : RateCurve} {utilization lower slope rate : Amount} {rise width way farther : Int}

/-! ## Floored lines -/

/-- The slope, on the scale of utilization, of a line that rises by `rise` over `width`. -/
def flooredSlope (rise width : Int) : Int := rise * Scale.utilization.val / width

/-- What such a line has risen by after a way along its width. -/
def climb (rise width way : Int) : Int := way * flooredSlope rise width / Scale.utilization.val

theorem flooredSlope_nonneg (riseNonneg : 0 ≤ rise) (widthNonneg : 0 ≤ width) :
    0 ≤ flooredSlope rise width :=
  Int.ediv_nonneg (mul_nonneg riseNonneg Scale.utilization_pos.le) widthNonneg

theorem mul_flooredSlope_le_mul (riseNonneg : 0 ≤ rise) (widthNonneg : 0 ≤ width)
    (le : way ≤ farther) : way * flooredSlope rise width ≤ farther * flooredSlope rise width :=
  mul_le_mul_of_nonneg_right le (flooredSlope_nonneg riseNonneg widthNonneg)

/-- Over its whole width a floored line climbs no more than its rise. -/
theorem mul_flooredSlope_le (riseNonneg : 0 ≤ rise) (widthNonneg : 0 ≤ width)
    (wayLe : way ≤ width) : way * flooredSlope rise width ≤ rise * Scale.utilization.val := by
  calc way * flooredSlope rise width
      ≤ width * flooredSlope rise width := mul_flooredSlope_le_mul riseNonneg widthNonneg wayLe
    _ ≤ rise * Scale.utilization.val := by
      rcases eq_or_ne width 0 with flat | nonzero
      · rw [flat, zero_mul]
        exact mul_nonneg riseNonneg Scale.utilization_pos.le
      · exact Int.mul_ediv_self_le nonzero

theorem climb_nonneg (riseNonneg : 0 ≤ rise) (widthNonneg : 0 ≤ width) (wayNonneg : 0 ≤ way) :
    0 ≤ climb rise width way :=
  Int.ediv_nonneg (mul_nonneg wayNonneg (flooredSlope_nonneg riseNonneg widthNonneg))
    Scale.utilization_pos.le

theorem climb_le_climb (riseNonneg : 0 ≤ rise) (widthNonneg : 0 ≤ width) (le : way ≤ farther) :
    climb rise width way ≤ climb rise width farther :=
  Int.ediv_le_ediv Scale.utilization_pos (mul_flooredSlope_le_mul riseNonneg widthNonneg le)

theorem climb_le_rise (riseNonneg : 0 ≤ rise) (widthNonneg : 0 ≤ width) (wayLe : way ≤ width) :
    climb rise width way ≤ rise :=
  Int.ediv_le_of_le_mul Scale.utilization_pos (mul_flooredSlope_le riseNonneg widthNonneg wayLe)

/-! ## The slopes of a curve -/

/-- A rate on the scale of utilization is far from the bound of an amount. -/
theorem ratio_mul_scale_lt (ratio : Ratio) : ratio.val * Scale.utilization.val < 2 ^ 128 := by
  have scaleNonneg := Scale.utilization_pos.le
  have ratioLt : ratio.val < 2 ^ 32 := Word.unsigned_lt ratio
  calc ratio.val * Scale.utilization.val ≤ 2 ^ 32 * Scale.utilization.val := by gcongr
    _ < 2 ^ 128 := by decide

/-- What a curve rises by from its kink on is no more than where it ends. -/
theorem rise_mul_scale_bounds (rises : curve.kinkRate.val ≤ curve.fullRate.val) :
    0 ≤ (curve.fullRate.val - curve.kinkRate.val) * Scale.utilization.val ∧
      (curve.fullRate.val - curve.kinkRate.val) * Scale.utilization.val < 2 ^ 128 := by
  have scaleNonneg := Scale.utilization_pos.le
  have riseLe : curve.fullRate.val - curve.kinkRate.val ≤ curve.fullRate.val :=
    sub_le_self _ (Word.unsigned_nonneg _)
  constructor
  · exact mul_nonneg (sub_nonneg.2 rises) scaleNonneg
  · calc (curve.fullRate.val - curve.kinkRate.val) * Scale.utilization.val
        ≤ curve.fullRate.val * Scale.utilization.val := by gcongr
      _ < 2 ^ 128 := ratio_mul_scale_lt curve.fullRate

theorem slopeBelow_eq_ok_iff :
    curve.slopeBelow = .ok slope ↔
      curve.kink.val ≠ 0 ∧ slope.val = flooredSlope curve.kinkRate.val curve.kink.val := by
  unfold slopeBelow
  rw [Word.unsigned_mulDiv_eq_ok_iff, val_widen_ratio, val_widen_ratio]
  exact and_iff_right (ratio_mul_scale_lt curve.kinkRate)

/-- Below a kink there is always a slope. -/
theorem exists_slopeBelow (nonzero : curve.kink.val ≠ 0) :
    ∃ slope, curve.slopeBelow = .ok slope :=
  Word.exists_unsigned_mulDiv_eq_ok_iff.2 ⟨ratio_mul_scale_lt curve.kinkRate, nonzero⟩

theorem slopeAbove_eq_ok_iff :
    curve.slopeAbove = .ok slope ↔
      curve.kinkRate.val ≤ curve.fullRate.val ∧ curve.kink.val < Scale.utilization.val ∧
        slope.val = flooredSlope (curve.fullRate.val - curve.kinkRate.val)
          (Scale.utilization.val - curve.kink.val) := by
  simp only [slopeAbove, Checked.bind_eq_ok_iff, Word.sub_eq_ok_iff, Word.mul_eq_ok_iff,
    Word.unsigned_div_eq_ok_iff, val_widen_ratio]
  constructor
  · intro sloped
    rcases sloped with ⟨rise, riseEq, lifted, liftedEq, width, widthEq, nonzero, slopeEq⟩
    have riseNonneg := Word.unsigned_nonneg rise
    have widthNonneg := Word.unsigned_nonneg width
    rw [liftedEq, riseEq, widthEq] at slopeEq
    exact ⟨by omega, by omega, slopeEq⟩
  · intro sound
    rcases sound with ⟨rises, short, slopeEq⟩
    have kinkRateNonneg := Word.unsigned_nonneg curve.kinkRate
    have kinkNonneg := Word.unsigned_nonneg curve.kink
    obtain ⟨rise, riseEq⟩ := Word.exists_val_eq_of_le (curve.fullRate.widen : Amount)
      (sub_nonneg.2 rises) (by rw [val_widen_ratio]; omega)
    obtain ⟨lifted, liftedEq⟩ := Word.exists_val_eq_iff.2
      (Format.unsigned_holds_iff.2 (rise_mul_scale_bounds rises))
    obtain ⟨width, widthEq⟩ := Word.exists_val_eq_of_le Scale.utilization
      (sub_nonneg.2 short.le) (by omega)
    rw [← riseEq] at liftedEq
    refine ⟨rise, riseEq, lifted, liftedEq, width, widthEq, by omega, ?_⟩
    rw [liftedEq, riseEq, widthEq]
    exact slopeEq

/-- Above a kink short of full utilization there is a slope, unless the rate falls. -/
theorem exists_slopeAbove (rises : curve.kinkRate.val ≤ curve.fullRate.val)
    (short : curve.kink.val < Scale.utilization.val) : ∃ slope, curve.slopeAbove = .ok slope := by
  obtain ⟨liftedNonneg, liftedLt⟩ := rise_mul_scale_bounds rises
  have slopeNonneg := Int.ediv_nonneg liftedNonneg (sub_nonneg.2 short.le)
  have slopeLe := Int.ediv_le_self (Scale.utilization.val - curve.kink.val) liftedNonneg
  obtain ⟨slope, slopeEq⟩ := Word.exists_val_eq_iff.2
    (Format.unsigned_holds_iff.2 ⟨slopeNonneg, lt_of_le_of_lt slopeLe liftedLt⟩)
  exact ⟨slope, slopeAbove_eq_ok_iff.2 ⟨rises, short, slopeEq⟩⟩

/-! ## The rate at a utilization -/

/-- Up to the kink there is always a rate. -/
theorem rateAt_eq_ok_iff_of_le (upToKink : utilization.val ≤ curve.kink.val) :
    curve.rateAt utilization = .ok rate ↔
      rate.val = climb curve.kinkRate.val curve.kink.val utilization.val := by
  have utilizationNonneg := Word.unsigned_nonneg utilization
  unfold rateAt climb
  by_cases unused : utilization.val = 0
  · rw [if_pos (Word.eq_zero_iff.2 unused), unused, zero_mul, Int.zero_ediv, Except.ok.injEq,
      eq_comm]
    exact Word.eq_zero_iff
  have kinkNonzero : curve.kink.val ≠ 0 := by omega
  rw [if_neg (mt Word.eq_zero_iff.1 unused)]
  simp only [Word.lt_iff, val_widen_ratio, if_neg (not_lt.2 upToKink), Checked.bind_eq_ok_iff,
    slopeBelow_eq_ok_iff, Word.unsigned_mulDiv_eq_ok_iff]
  constructor
  · intro rated
    rcases rated with ⟨slope, ⟨-, slopeEq⟩, -, -, rateEq⟩
    rwa [slopeEq] at rateEq
  · intro rateEq
    obtain ⟨slope, sloped⟩ := exists_slopeBelow kinkNonzero
    have slopeSound := slopeBelow_eq_ok_iff.1 sloped
    have fits : utilization.val * slope.val < 2 ^ 128 := by
      rw [slopeSound.2]
      exact lt_of_le_of_lt (mul_flooredSlope_le (Word.unsigned_nonneg _) (Word.unsigned_nonneg _)
        upToKink) (ratio_mul_scale_lt curve.kinkRate)
    rw [← slopeSound.2] at rateEq
    exact ⟨slope, slopeSound, fits, Scale.utilization_pos.ne', rateEq⟩

/-- Past the kink there is a rate only if the kink is short of full utilization and the rate does not
fall from there on. -/
theorem rateAt_eq_ok_iff_of_lt (pastKink : curve.kink.val < utilization.val) :
    curve.rateAt utilization = .ok rate ↔
      curve.kinkRate.val ≤ curve.fullRate.val ∧ curve.kink.val < Scale.utilization.val ∧
        (utilization.val - curve.kink.val) *
          flooredSlope (curve.fullRate.val - curve.kinkRate.val)
            (Scale.utilization.val - curve.kink.val) < 2 ^ 128 ∧
        rate.val = curve.kinkRate.val +
          climb (curve.fullRate.val - curve.kinkRate.val)
            (Scale.utilization.val - curve.kink.val) (utilization.val - curve.kink.val) := by
  have kinkNonneg := Word.unsigned_nonneg curve.kink
  have inUse : utilization.val ≠ 0 := by omega
  unfold rateAt climb
  rw [if_neg (mt Word.eq_zero_iff.1 inUse)]
  simp only [Word.lt_iff, val_widen_ratio, if_pos pastKink, Checked.bind_eq_ok_iff,
    Word.sub_eq_ok_iff, slopeAbove_eq_ok_iff, Word.unsigned_mulDiv_eq_ok_iff, Word.add_eq_ok_iff]
  constructor
  · intro rated
    rcases rated with ⟨surplus, surplusEq, slope, ⟨rises, short, slopeEq⟩, climbed,
      ⟨fits, -, climbedEq⟩, rateEq⟩
    rw [surplusEq, slopeEq] at fits climbedEq
    rw [climbedEq] at rateEq
    exact ⟨rises, short, fits, rateEq⟩
  · intro sound
    rcases sound with ⟨rises, short, fits, rateEq⟩
    obtain ⟨slope, sloped⟩ := exists_slopeAbove rises short
    have slopeSound := slopeAbove_eq_ok_iff.1 sloped
    obtain ⟨surplus, surplusEq⟩ := Word.exists_val_eq_of_le utilization
      (sub_nonneg.2 pastKink.le) (sub_le_self _ kinkNonneg)
    rw [← surplusEq, ← slopeSound.2.2] at fits rateEq
    obtain ⟨climbed, climbedEq⟩ :=
      Word.exists_unsigned_mulDiv_eq_ok_iff.2 ⟨fits, Scale.utilization_pos.ne'⟩
    have climbedSound := Word.unsigned_mulDiv_eq_ok_iff.1 climbedEq
    rw [← climbedSound.2.2] at rateEq
    exact ⟨surplus, surplusEq, slope, slopeSound, climbed, climbedSound, rateEq⟩

/-- Past the kink the rate is at least that of the kink. -/
theorem kinkRate_le_of_lt (pastKink : curve.kink.val < utilization.val)
    (rated : curve.rateAt utilization = .ok rate) : curve.kinkRate.val ≤ rate.val := by
  obtain ⟨rises, short, -, rateEq⟩ := (rateAt_eq_ok_iff_of_lt pastKink).1 rated
  rw [rateEq]
  exact le_add_of_nonneg_right
    (climb_nonneg (sub_nonneg.2 rises) (sub_nonneg.2 short.le) (sub_nonneg.2 pastKink.le))

/-! ## Lower utilization -/

/-- Where a utilization has a rate, every lower one has a rate, and no larger one. -/
theorem exists_rateAt_le (le : lower.val ≤ utilization.val)
    (rated : curve.rateAt utilization = .ok rate) :
    ∃ less, curve.rateAt lower = .ok less ∧ less.val ≤ rate.val := by
  have kinkNonneg := Word.unsigned_nonneg curve.kink
  have kinkRateNonneg := Word.unsigned_nonneg curve.kinkRate
  have lowerNonneg := Word.unsigned_nonneg lower
  rcases lt_or_ge curve.kink.val lower.val with pastKink | upToKink
  · -- Both lie on the upper line.
    rw [rateAt_eq_ok_iff_of_lt (lt_of_lt_of_le pastKink le)] at rated
    rcases rated with ⟨rises, short, fits, rateEq⟩
    have riseNonneg := sub_nonneg.2 rises
    have widthNonneg := sub_nonneg.2 short.le
    have wayLe := sub_le_sub_right le curve.kink.val
    have climbNonneg := climb_nonneg riseNonneg widthNonneg (sub_nonneg.2 pastKink.le)
    have lessLe := add_le_add_right (climb_le_climb riseNonneg widthNonneg wayLe) curve.kinkRate.val
    rw [← rateEq] at lessLe
    obtain ⟨less, lessEq⟩ :=
      Word.exists_val_eq_of_le rate (add_nonneg kinkRateNonneg climbNonneg) lessLe
    have fitsToo := lt_of_le_of_lt (mul_flooredSlope_le_mul riseNonneg widthNonneg wayLe) fits
    exact ⟨less, (rateAt_eq_ok_iff_of_lt pastKink).2 ⟨rises, short, fitsToo, lessEq⟩,
      lessEq ▸ lessLe⟩
  · have lessLe : climb curve.kinkRate.val curve.kink.val lower.val ≤ rate.val := by
      rcases lt_or_ge curve.kink.val utilization.val with pastKink | upToKinkToo
      · -- The lower line ends no higher than the upper one begins.
        exact le_trans (climb_le_rise kinkRateNonneg kinkNonneg upToKink)
          (kinkRate_le_of_lt pastKink rated)
      · rw [(rateAt_eq_ok_iff_of_le upToKinkToo).1 rated]
        exact climb_le_climb kinkRateNonneg kinkNonneg le
    obtain ⟨less, lessEq⟩ := Word.exists_val_eq_of_le rate
      (climb_nonneg kinkRateNonneg kinkNonneg lowerNonneg) lessLe
    exact ⟨less, (rateAt_eq_ok_iff_of_le upToKink).2 lessEq, lessEq ▸ lessLe⟩

/-! ## Up to full utilization -/

/-- The kink of a curve lies between no utilization and the full one, and its rate does not fall from
there on. -/
structure Rising (curve : RateCurve) : Prop where
  kink_pos : 0 < curve.kink.val
  kink_lt : curve.kink.val < Scale.utilization.val
  kinkRate_le : curve.kinkRate.val ≤ curve.fullRate.val

/-- A rising curve has a rate at every utilization up to the full one, and none above its last. -/
theorem Rising.exists_rateAt (rising : curve.Rising)
    (within : utilization.val ≤ Scale.utilization.val) :
    ∃ rate, curve.rateAt utilization = .ok rate ∧ rate.val ≤ curve.fullRate.val := by
  have riseNonneg := sub_nonneg.2 rising.kinkRate_le
  have widthNonneg := sub_nonneg.2 rising.kink_lt.le
  have climbNonneg := climb_nonneg riseNonneg widthNonneg widthNonneg
  have climbLe := climb_le_rise riseNonneg widthNonneg le_rfl
  have fullLe := add_le_add_right climbLe curve.kinkRate.val
  rw [add_sub_cancel] at fullLe
  obtain ⟨last, lastEq⟩ := Word.exists_val_eq_of_le (curve.fullRate.widen : Amount)
    (add_nonneg (Word.unsigned_nonneg curve.kinkRate) climbNonneg) fullLe
  have fits := lt_of_le_of_lt (mul_flooredSlope_le riseNonneg widthNonneg le_rfl)
    (rise_mul_scale_bounds rising.kinkRate_le).2
  have ratedLast := (rateAt_eq_ok_iff_of_lt rising.kink_lt).2
    ⟨rising.kinkRate_le, rising.kink_lt, fits, lastEq⟩
  obtain ⟨rate, rated, rateLe⟩ := exists_rateAt_le within ratedLast
  exact ⟨rate, rated, rateLe.trans (lastEq ▸ fullLe)⟩

/-! ## The exact curve -/

/-- The height at `x` of the line through two points. -/
def lineThrough (a b : ℚ × ℚ) (x : ℚ) : ℚ := a.2 + (x - a.1) * (b.2 - a.2) / (b.1 - a.1)

theorem lineThrough_left (a b : ℚ × ℚ) : lineThrough a b a.1 = a.2 := by
  rw [lineThrough, sub_self, zero_mul, zero_div, add_zero]

theorem lineThrough_right {a b : ℚ × ℚ} (apart : a.1 < b.1) : lineThrough a b b.1 = b.2 := by
  rw [lineThrough, mul_div_cancel_left₀ _ (sub_ne_zero.2 apart.ne'), add_sub_cancel]

/-- The curve without floors: a line from the origin to the kink and one from there to full
utilization. -/
def exactRate (curve : RateCurve) (utilization : ℚ) : ℚ :=
  let kink : ℚ × ℚ := (curve.kink.val, curve.kinkRate.val)
  let full : ℚ × ℚ := (Scale.utilization.val, curve.fullRate.val)
  if utilization ≤ curve.kink.val then lineThrough (0, 0) kink utilization
  else lineThrough kink full utilization

/-- On a rising curve the two lines meet at the kink. -/
theorem Rising.exactRate_corners (rising : curve.Rising) :
    curve.exactRate 0 = 0 ∧ curve.exactRate curve.kink.val = curve.kinkRate.val ∧
      curve.exactRate Scale.utilization.val = curve.fullRate.val := by
  have kinkPos : (0 : ℚ) < curve.kink.val := by exact_mod_cast rising.kink_pos
  have kinkLt : (curve.kink.val : ℚ) < Scale.utilization.val := by exact_mod_cast rising.kink_lt
  unfold exactRate
  rw [if_pos kinkPos.le, if_pos le_rfl, if_neg (not_le.2 kinkLt)]
  exact ⟨lineThrough_left _ _, lineThrough_right kinkPos, lineThrough_right kinkLt⟩

/-- Either floor of a floored line costs less than one unit, as long as the way along the line is no
longer than the scale. -/
theorem climb_bounds (rise : Int) (widthPos : 0 < width) (wayNonneg : 0 ≤ way)
    (wayLe : way ≤ Scale.utilization.val) :
    climb rise width way * width ≤ way * rise ∧ way * rise < (climb rise width way + 2) * width := by
  have scalePos := Scale.utilization_pos
  have slopeLe : flooredSlope rise width * width ≤ rise * Scale.utilization.val :=
    Int.ediv_mul_le _ widthPos.ne'
  have leSlope : rise * Scale.utilization.val ≤ (flooredSlope rise width + 1) * width :=
    (Int.lt_ediv_add_one_mul_self _ widthPos).le
  have climbLe : climb rise width way * Scale.utilization.val ≤ way * flooredSlope rise width :=
    Int.ediv_mul_le _ scalePos.ne'
  have ltClimb : way * flooredSlope rise width <
      (climb rise width way + 1) * Scale.utilization.val := Int.lt_ediv_add_one_mul_self _ scalePos
  generalize climb rise width way = climbed at *
  generalize flooredSlope rise width = slope at *
  constructor
  · refine le_of_mul_le_mul_right ?_ scalePos
    calc climbed * width * Scale.utilization.val
        = climbed * Scale.utilization.val * width := by ring
      _ ≤ way * slope * width := by gcongr
      _ = way * (slope * width) := by ring
      _ ≤ way * (rise * Scale.utilization.val) := by gcongr
      _ = way * rise * Scale.utilization.val := by ring
  · refine lt_of_mul_lt_mul_right ?_ scalePos.le
    have ltScales := add_lt_add_of_lt_of_le ltClimb wayLe
    calc way * rise * Scale.utilization.val
        = way * (rise * Scale.utilization.val) := by ring
      _ ≤ way * ((slope + 1) * width) := by gcongr
      _ = (way * slope + way) * width := by ring
      _ < ((climbed + 1) * Scale.utilization.val + Scale.utilization.val) * width := by gcongr
      _ = (climbed + 2) * width * Scale.utilization.val := by ring

theorem climb_accurate (rise : Int) (widthPos : 0 < width) (wayNonneg : 0 ≤ way)
    (wayLe : way ≤ Scale.utilization.val) :
    (way * rise / width : ℚ) - 2 < climb rise width way ∧
      (climb rise width way : ℚ) ≤ way * rise / width := by
  obtain ⟨climbLe, ltClimb⟩ := climb_bounds rise widthPos wayNonneg wayLe
  have widthPosRat : (0 : ℚ) < width := by exact_mod_cast widthPos
  constructor
  · rw [sub_lt_iff_lt_add, div_lt_iff₀ widthPosRat]
    exact_mod_cast ltClimb
  · rw [le_div_iff₀ widthPosRat]
    exact_mod_cast climbLe

/-- Up to full utilization the rate falls short of the exact curve by less than two units. -/
theorem rateAt_accurate (within : utilization.val ≤ Scale.utilization.val)
    (rated : curve.rateAt utilization = .ok rate) :
    curve.exactRate utilization.val - 2 < rate.val ∧
      (rate.val : ℚ) ≤ curve.exactRate utilization.val := by
  have utilizationNonneg := Word.unsigned_nonneg utilization
  have kinkNonneg := Word.unsigned_nonneg curve.kink
  rcases lt_or_ge curve.kink.val utilization.val with pastKink | upToKink
  · obtain ⟨-, short, -, rateEq⟩ := (rateAt_eq_ok_iff_of_lt pastKink).1 rated
    have pastKinkRat : ¬ (utilization.val : ℚ) ≤ curve.kink.val := by exact_mod_cast not_le.2 pastKink
    have wayLe : utilization.val - curve.kink.val ≤ Scale.utilization.val :=
      (sub_le_self _ kinkNonneg).trans within
    have accurate := climb_accurate (curve.fullRate.val - curve.kinkRate.val) (sub_pos.2 short)
      (sub_nonneg.2 pastKink.le) wayLe
    push_cast at accurate
    rw [exactRate, if_neg pastKinkRat, lineThrough, rateEq]
    push_cast
    constructor
    · linarith [accurate.1]
    · linarith [accurate.2]
  · rw [(rateAt_eq_ok_iff_of_le upToKink).1 rated, exactRate, if_pos (by exact_mod_cast upToKink),
      lineThrough, zero_add, sub_zero, sub_zero, sub_zero]
    rcases kinkNonneg.eq_or_lt with atOrigin | kinkPos
    · have unused : utilization.val = 0 := by omega
      rw [unused, climb, zero_mul, Int.zero_ediv, Int.cast_zero, zero_mul, zero_div]
      norm_num
    · exact climb_accurate _ kinkPos utilizationNonneg within

end Leverage.RateCurve
