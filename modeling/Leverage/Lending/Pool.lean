import Leverage.Key
import Leverage.Lending.Side
import Leverage.Margin.Tier
import Leverage.Scale

/-!
# Lending pools

A `LendingPool` is a snapshot of all that is lent and borrowed of one token. What a depositor or a
borrower has is kept as a scaled balance, which stands still while the index of its side grows; the
product of the two is the amount of tokens.
-/

namespace Leverage

/-- The yearly rate of borrowing as a function of utilization: a line from the origin to the kink
and a second line from there to full utilization. -/
structure RateCurve where
  kink : Ratio := 0
  kinkRate : Ratio := 0
  fullRate : Ratio := 0
deriving DecidableEq, Repr, Inhabited

structure LendingPool where
  marketIndex : MarketIndex := 0
  mint : Key := .zero
  oracle : Key := .zero
  /-- The decimals of the token. Balances can only be converted up to `Scale.balanceDecimals`. -/
  decimals : Decimals := .lit 6
  /-- How many tokens a scaled unit of each side has grown to. -/
  index : BySide Amount := ⟨Scale.index, Scale.index⟩
  /-- The scaled balances of each side, summed over all holders. -/
  scaled : BySide Amount := ⟨0, 0⟩
  curve : RateCurve := {}
  /-- The time up to which interest is in the indices. -/
  accruedAt : Timestamp := 0
  /-- The time of the stored averages. -/
  averagedAt : Timestamp := 0
  /-- A day's average of the tokens on each side. -/
  average : BySide Amount := ⟨0, 0⟩
  /-- Deposits up to this amount of tokens are not guarded. -/
  guardThreshold : Amount := 0
  /-- How strongly weights react to the size of a balance. -/
  sizeFactor : Ratio := 0
  assetWeights : ByTier Ratio := ⟨0, 0⟩
  liabilityWeights : ByTier Ratio := ⟨0, 0⟩
deriving DecidableEq, Repr

instance : Inhabited LendingPool := ⟨{}⟩

/-- What one holder has on one side of a pool. -/
structure PoolPosition where
  marketIndex : MarketIndex := 0
  side : Side := .deposit
  scaled : Amount := 0
deriving DecidableEq, Repr, Inhabited

end Leverage
