import Leverage.Margin.Requirement
import Leverage.Proofs.Margin.Size
import Leverage.Proofs.Margin.SizeCurve

/-!
# Larger positions

Every step from an amount to the weight or the ratio that it is held to keeps the order of amounts:
the size, its root, the curve and the last conversion. So a larger position is never treated more
leniently than a smaller one, and what can be computed for it can be computed for the smaller one. A
small position is treated as configured at best.
-/

namespace Leverage

variable {tier : MarginTier} {smaller larger : Amount} {weight ratio : Ratio}

namespace LendingPool

variable {pool : LendingPool}

theorem assetWeight_eq_ok_iff :
    pool.assetWeight larger tier = .ok weight ↔
      ∃ size, pool.sizeOfTokens larger = .ok size ∧
        discountedWeight size pool.sizeFactor (pool.assetWeights.get tier) = .ok weight :=
  Checked.bind_eq_ok_iff

theorem liabilityWeight_eq_ok_iff :
    pool.liabilityWeight larger tier = .ok weight ↔
      ∃ size, pool.sizeOfTokens larger = .ok size ∧
        premiumWeight size pool.sizeFactor (pool.liabilityWeights.get tier) Scale.weight =
          .ok weight :=
  Checked.bind_eq_ok_iff

/-- Where deposited tokens have a weight, fewer tokens have one, no smaller than theirs and no larger
than configured. -/
theorem exists_assetWeight_ge (le : smaller.val ≤ larger.val)
    (weighed : pool.assetWeight larger tier = .ok weight) :
    ∃ more, pool.assetWeight smaller tier = .ok more ∧ weight.val ≤ more.val ∧
      more.val ≤ (pool.assetWeights.get tier).val := by
  obtain ⟨size, sized, discounted⟩ := assetWeight_eq_ok_iff.1 weighed
  obtain ⟨smallerSize, sizedSmaller, sizeLe⟩ := exists_sizeOfTokens_le le sized
  obtain ⟨more, discountedSmaller, weightLe⟩ := exists_discountedWeight_ge sizeLe le_rfl discounted
  exact ⟨more, assetWeight_eq_ok_iff.2 ⟨smallerSize, sizedSmaller, discountedSmaller⟩, weightLe,
    discountedWeight_le discountedSmaller⟩

/-- Where borrowed tokens have a weight, fewer tokens have one, no larger than theirs and no smaller
than configured. -/
theorem exists_liabilityWeight_le (le : smaller.val ≤ larger.val)
    (weighed : pool.liabilityWeight larger tier = .ok weight) :
    ∃ less, pool.liabilityWeight smaller tier = .ok less ∧ less.val ≤ weight.val ∧
      (pool.liabilityWeights.get tier).val ≤ less.val := by
  obtain ⟨size, sized, raised⟩ := liabilityWeight_eq_ok_iff.1 weighed
  obtain ⟨smallerSize, sizedSmaller, sizeLe⟩ := exists_sizeOfTokens_le le sized
  obtain ⟨less, raisedSmaller, weightLe⟩ := exists_premiumWeight_le sizeLe le_rfl le_rfl raised
  exact ⟨less, liabilityWeight_eq_ok_iff.2 ⟨smallerSize, sizedSmaller, raisedSmaller⟩, weightLe,
    le_premiumWeight raisedSmaller⟩

end LendingPool

namespace Market

variable {market : Market} {base : Ratio}

theorem marginRatio_eq_ok_iff :
    market.marginRatio larger tier = .ok ratio ↔
      ∃ base, market.baseMarginRatio tier = .ok base ∧
        premiumWeight larger market.sizeFactor base Scale.margin = .ok ratio :=
  Checked.bind_eq_ok_iff

/-- Where a position has a margin ratio, a smaller one has one, no larger than its own and no smaller
than the base ratio of the market. -/
theorem exists_marginRatio_le (le : smaller.val ≤ larger.val)
    (required : market.marginRatio larger tier = .ok ratio) :
    ∃ base less, market.baseMarginRatio tier = .ok base ∧
      market.marginRatio smaller tier = .ok less ∧ less.val ≤ ratio.val ∧ base.val ≤ less.val := by
  obtain ⟨base, based, raised⟩ := marginRatio_eq_ok_iff.1 required
  obtain ⟨less, raisedSmaller, ratioLe⟩ := exists_premiumWeight_le le le_rfl le_rfl raised
  exact ⟨base, less, based, marginRatio_eq_ok_iff.2 ⟨base, based, raisedSmaller⟩, ratioLe,
    le_premiumWeight raisedSmaller⟩

end Market

/-- A larger position is never treated more leniently, under either tier: as deposited tokens it has
no larger weight, as borrowed tokens no smaller one, and in either kind of market no smaller margin
ratio. What can be computed for it can be computed for the smaller one, and is no more lenient there
than configured. -/
theorem larger_never_lenient (tier : MarginTier) (le : smaller ≤ larger) :
    (∀ (pool : LendingPool) weight, pool.assetWeight larger tier = .ok weight →
      ∃ more, pool.assetWeight smaller tier = .ok more ∧ weight ≤ more ∧
        more ≤ pool.assetWeights.get tier) ∧
    (∀ (pool : LendingPool) weight, pool.liabilityWeight larger tier = .ok weight →
      ∃ less, pool.liabilityWeight smaller tier = .ok less ∧ less ≤ weight ∧
        pool.liabilityWeights.get tier ≤ less) ∧
    ∀ (market : Market) ratio, market.marginRatio larger tier = .ok ratio →
      ∃ base less, market.baseMarginRatio tier = .ok base ∧
        market.marginRatio smaller tier = .ok less ∧ less ≤ ratio ∧ base ≤ less := by
  refine ⟨?_, ?_, ?_⟩
  · intro pool weight weighed
    exact LendingPool.exists_assetWeight_ge le weighed
  · intro pool weight weighed
    exact LendingPool.exists_liabilityWeight_le le weighed
  · intro market ratio required
    exact Market.exists_marginRatio_le le required

/-- A pool of a token with more decimals than the scale of sizes keeps. -/
def thinPool : LendingPool where
  decimals := .lit 18
  sizeFactor := .lit 1000
  assetWeights := ⟨.lit 8000, .lit 9000⟩
  liabilityWeights := ⟨.lit 12000, .lit 11000⟩

/-- A hundred million of its tokens. -/
def hoard : Amount := .lit 100000000000000000000000000

/-- A hundred thousand of its tokens. -/
def savings : Amount := .lit 100000000000000000000000

theorem larger_never_lenient_of_hoard :
    savings ≤ hoard ∧ thinPool.assetWeight hoard .initial = .ok (.lit 10) ∧
      (∃ more, thinPool.assetWeight savings .initial = .ok more ∧ .lit 10 ≤ more ∧
        more ≤ .lit 8000) ∧
      thinPool.liabilityWeight hoard .initial = .ok (.lit 10009600) ∧
      (∃ less, thinPool.liabilityWeight savings .initial = .ok less ∧ less ≤ .lit 10009600 ∧
        .lit 12000 ≤ less) ∧
      (Market.spot thinPool).marginRatio hoard .initial = .ok (.lit 3162317660) ∧
      ∃ base less, (Market.spot thinPool).baseMarginRatio .initial = .ok base ∧
        (Market.spot thinPool).marginRatio savings .initial = .ok less ∧
        less ≤ .lit 3162317660 ∧ base ≤ less := by
  have ascending : savings ≤ hoard := by decide
  have asset : thinPool.assetWeight hoard .initial = .ok (.lit 10) := by decide +kernel
  have liability : thinPool.liabilityWeight hoard .initial = .ok (.lit 10009600) := by
    decide +kernel
  have required : (Market.spot thinPool).marginRatio hoard .initial = .ok (.lit 3162317660) := by
    decide +kernel
  obtain ⟨assets, liabilities, requirements⟩ := larger_never_lenient .initial ascending
  exact ⟨ascending, asset, assets _ _ asset, liability, liabilities _ _ liability, required,
    requirements _ _ required⟩

end Leverage
