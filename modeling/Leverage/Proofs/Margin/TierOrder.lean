import Leverage.Proofs.Margin.SizeOrder

/-!
# The two tiers of a margin ratio

Size raises a ratio by a curve that keeps the order of base ratios, so the tier with the larger base
ratio has the larger ratio at every size: `exists_marginRatio_le_of_base`.

Which tier that is depends on the market. A perpetual market states its ratios, and states the
initial one as the larger. A pool states liability weights, of which the initial is again the larger,
but its base ratio is the reciprocal of what a weight exceeds one by: the larger weight stands for the
smaller ratio. `marginRatio_tiers` says both.
-/

namespace Leverage

variable {tier lowTier : MarginTier} {size : Amount} {base lowBase ratio : Ratio}

namespace LendingPool

variable {pool : LendingPool}

/-- The base ratio of a pool is the reciprocal of what the liability weight exceeds one by. -/
theorem marginRatio_eq_ok_iff :
    pool.marginRatio tier = .ok base ↔
      Scale.weight.val < (pool.liabilityWeights.get tier).val ∧
        base.val = 10 ^ 8 / ((pool.liabilityWeights.get tier).val - Scale.weight.val) := by
  unfold marginRatio
  by_cases low : (pool.liabilityWeights.get tier).val ≤ Scale.weight.val
  · rw [if_pos (Word.le_iff.2 low)]
    exact ⟨nofun, fun based => absurd based.1 (not_lt.2 low)⟩
  have high := not_le.1 low
  rw [if_neg (mt Word.le_iff.1 low), and_iff_right high]
  simp only [Checked.bind_eq_ok_iff, Word.mul_eq_ok_iff, Word.sub_eq_ok_iff,
    Word.unsigned_div_eq_ok_iff, Word.cast_eq_ok_iff, val_widen_ratio]
  constructor
  · intro based
    rcases based with ⟨one, oneEq, excess, excessEq, quotient, ⟨-, quotientEq⟩, baseEq⟩
    rw [baseEq, quotientEq, oneEq, excessEq]
    rfl
  · intro baseEq
    obtain ⟨excess, taken⟩ : ∃ excess,
        ((pool.liabilityWeights.get tier).widen : Amount).sub Scale.weight = .ok excess :=
      Word.exists_unsigned_sub_eq_ok_iff.2 high.le
    have excessEq := Word.sub_eq_ok_iff.1 taken
    rw [val_widen_ratio] at excessEq
    refine ⟨.lit 100000000, by decide, excess, excessEq, base.widen, ⟨by omega, ?_⟩, rfl⟩
    rw [val_widen_ratio, baseEq, excessEq]
    rfl

/-- Of two liability weights beyond one, the larger stands for the smaller base ratio. -/
theorem exists_marginRatio_le_of_weight
    (weightLe : (pool.liabilityWeights.get tier).val ≤ (pool.liabilityWeights.get lowTier).val)
    (based : pool.marginRatio tier = .ok base) :
    ∃ lowBase, pool.marginRatio lowTier = .ok lowBase ∧ lowBase.val ≤ base.val := by
  obtain ⟨high, baseEq⟩ := marginRatio_eq_ok_iff.1 based
  have reciprocalLe :
      10 ^ 8 / ((pool.liabilityWeights.get lowTier).val - Scale.weight.val) ≤ base.val := by
    rw [baseEq]
    exact ediv_le_ediv_of_divisor_le (by decide) (sub_pos.2 high) (by omega)
  have reciprocalNonneg :
      0 ≤ 10 ^ 8 / ((pool.liabilityWeights.get lowTier).val - Scale.weight.val) :=
    Int.ediv_nonneg (by decide) (by omega)
  obtain ⟨lowBase, lowBaseEq⟩ := Word.exists_val_eq_of_le base reciprocalNonneg reciprocalLe
  exact ⟨lowBase, marginRatio_eq_ok_iff.2 ⟨high.trans_le weightLe, lowBaseEq⟩,
    lowBaseEq.trans_le reciprocalLe⟩

end LendingPool

namespace Market

variable {market : Market}

/-- The configuration of a market asks no less of a position that is opened than of one that is
kept. -/
def TiersOrdered : Market → Prop
  | perp market => market.marginRatios.maintenance ≤ market.marginRatios.initial
  | spot pool => Scale.weight < (pool.liabilityWeights.maintenance.widen : Amount) ∧
      pool.liabilityWeights.maintenance ≤ pool.liabilityWeights.initial

/-- The tier with the smaller base ratio has the smaller ratio at every size. The two are the same
only where the base ratios are within a unit of each other. -/
theorem exists_marginRatio_le_of_base (based : market.baseMarginRatio tier = .ok base)
    (lowBased : market.baseMarginRatio lowTier = .ok lowBase) (baseLe : lowBase.val ≤ base.val)
    (required : market.marginRatio size tier = .ok ratio) :
    ∃ less, market.marginRatio size lowTier = .ok less ∧ less.val ≤ ratio.val ∧
      (ratio.val ≤ less.val → base.val ≤ lowBase.val + 1) := by
  obtain ⟨base', based', raised⟩ := marginRatio_eq_ok_iff.1 required
  obtain rfl : base' = base := Except.ok.inj (based'.symm.trans based)
  obtain ⟨less, raisedLow, ratioLe⟩ := exists_premiumWeight_le le_rfl le_rfl baseLe raised
  refine ⟨less, marginRatio_eq_ok_iff.2 ⟨lowBase, lowBased, raisedLow⟩, ratioLe, fun same => ?_⟩
  rw [(premiumWeight_eq_ok_iff.1 raised).2, (premiumWeight_eq_ok_iff.1 raisedLow).2] at same
  by_contra apart
  exact absurd same (not_le.2 (premiumCurve_lt_premiumCurve (by omega)))

/-- Under an ordered configuration the initial ratio of a perpetual market is at least its maintenance
ratio, at every size. That of a pool is at most its maintenance ratio, and as much only where the base
ratios, of which the initial one is no larger either, are within a unit of each other. -/
theorem marginRatio_tiers (size : Amount) :
    (∀ (market : PerpMarket) initial, (Market.perp market).TiersOrdered →
      (Market.perp market).marginRatio size .initial = .ok initial →
      ∃ maintenance, (Market.perp market).marginRatio size .maintenance = .ok maintenance ∧
        maintenance ≤ initial) ∧
    ∀ (pool : LendingPool) maintenance, (Market.spot pool).TiersOrdered →
      (Market.spot pool).marginRatio size .maintenance = .ok maintenance →
      ∃ initial baseInitial baseMaintenance,
        (Market.spot pool).marginRatio size .initial = .ok initial ∧ initial ≤ maintenance ∧
        (Market.spot pool).baseMarginRatio .initial = .ok baseInitial ∧
        (Market.spot pool).baseMarginRatio .maintenance = .ok baseMaintenance ∧
        baseInitial ≤ baseMaintenance ∧
        (maintenance ≤ initial → baseMaintenance.val ≤ baseInitial.val + 1) := by
  constructor
  · intro market initial ordered opened
    have openedBase : (Market.perp market).baseMarginRatio .initial =
        .ok market.marginRatios.initial := rfl
    have keptBase : (Market.perp market).baseMarginRatio .maintenance =
        .ok market.marginRatios.maintenance := rfl
    obtain ⟨maintenance, kept, keptLe, -⟩ :=
      exists_marginRatio_le_of_base openedBase keptBase ordered opened
    exact ⟨maintenance, kept, keptLe⟩
  · intro pool maintenance ordered kept
    have weightLe : (pool.liabilityWeights.get .maintenance).val ≤
        (pool.liabilityWeights.get .initial).val := ordered.2
    obtain ⟨baseMaintenance, keptBase, -⟩ := marginRatio_eq_ok_iff.1 kept
    obtain ⟨baseInitial, openedBase, baseLe⟩ :=
      LendingPool.exists_marginRatio_le_of_weight weightLe keptBase
    obtain ⟨initial, opened, openedLe, near⟩ :=
      exists_marginRatio_le_of_base keptBase openedBase baseLe kept
    exact ⟨initial, baseInitial, baseMaintenance, opened, openedLe, openedBase, keptBase, baseLe,
      near⟩

/-- A perpetual market that asks for a tenth to open a position and for half of that to keep it. -/
def tenfoldMarket : PerpMarket where
  sizeFactor := .lit 1000
  marginRatios := ⟨.lit 1000, .lit 500⟩

/-- A position of a hundred thousand units in that market and in the thin pool. -/
theorem marginRatio_tiers_of_hundredThousand :
    (Market.perp tenfoldMarket).TiersOrdered ∧ (Market.spot thinPool).TiersOrdered ∧
      (Market.perp tenfoldMarket).marginRatio (.lit 1000000000000000000) .initial =
        .ok (.lit 317027) ∧
      (∃ maintenance, (Market.perp tenfoldMarket).marginRatio (.lit 1000000000000000000)
        .maintenance = .ok maintenance ∧ maintenance ≤ .lit 317027) ∧
      (Market.spot thinPool).marginRatio (.lit 1000000000000000000) .maintenance =
        .ok (.lit 396227) ∧
      ∃ initial baseInitial baseMaintenance,
        (Market.spot thinPool).marginRatio (.lit 1000000000000000000) .initial = .ok initial ∧
        initial ≤ .lit 396227 ∧
        (Market.spot thinPool).baseMarginRatio .initial = .ok baseInitial ∧
        (Market.spot thinPool).baseMarginRatio .maintenance = .ok baseMaintenance ∧
        baseInitial ≤ baseMaintenance ∧
        (.lit 396227 ≤ initial → baseMaintenance.val ≤ baseInitial.val + 1) := by
  have perpOrdered : (Market.perp tenfoldMarket).TiersOrdered := by
    unfold TiersOrdered
    decide
  have spotOrdered : (Market.spot thinPool).TiersOrdered := by
    unfold TiersOrdered
    decide
  have opened : (Market.perp tenfoldMarket).marginRatio (.lit 1000000000000000000) .initial =
      .ok (.lit 317027) := by
    decide +kernel
  have kept : (Market.spot thinPool).marginRatio (.lit 1000000000000000000) .maintenance =
      .ok (.lit 396227) := by
    decide +kernel
  obtain ⟨perps, spots⟩ := marginRatio_tiers (.lit 1000000000000000000)
  exact ⟨perpOrdered, spotOrdered, opened, perps _ _ perpOrdered opened, kept,
    spots _ _ spotOrdered kept⟩

/-- The initial ratio of a pool may be below its maintenance ratio. -/
theorem marginRatio_initial_below_maintenance :
    ¬ ∀ (market : Market) (size : Amount) (initial maintenance : Ratio), market.TiersOrdered →
      market.marginRatio size .initial = .ok initial →
      market.marginRatio size .maintenance = .ok maintenance → maintenance ≤ initial := by
  intro stricter
  have ordered : (Market.spot thinPool).TiersOrdered := by
    unfold TiersOrdered
    decide
  have opened : (Market.spot thinPool).marginRatio (.lit 1) .initial = .ok (.lit 50000) := by
    decide +kernel
  have kept : (Market.spot thinPool).marginRatio (.lit 1) .maintenance = .ok (.lit 100000) := by
    decide +kernel
  exact absurd (stricter _ _ _ _ ordered opened kept) (by decide)

end Market

end Leverage
