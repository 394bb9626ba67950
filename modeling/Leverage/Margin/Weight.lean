import Leverage.Lending.Pool
import Leverage.Margin.SizeCurve

/-!
# Weights of pool balances

The weight at which a balance in a lending pool counts for or against its holder, after the size
curves. Balances come in token units and are brought to the scale of the curves first.
-/

namespace Leverage.LendingPool

/-- An amount of tokens on the scale of the size curves. -/
def sizeOfTokens (pool : LendingPool) (tokens : Amount) : Checked Amount := do
  let unit ← tenPow pool.decimals.toNat
  rescale tokens unit Scale.reserve

def assetWeight (pool : LendingPool) (tokens : Amount) (tier : MarginTier) : Checked Ratio := do
  let size ← pool.sizeOfTokens tokens
  discountedWeight size pool.sizeFactor (pool.assetWeights.get tier)

def liabilityWeight (pool : LendingPool) (tokens : Amount) (tier : MarginTier) : Checked Ratio := do
  let size ← pool.sizeOfTokens tokens
  premiumWeight size pool.sizeFactor (pool.liabilityWeights.get tier) Scale.weight

/-- The weight of deposited tokens under a tier given by its number. A number without a tier stands
for the initial weight of a small balance. -/
def assetWeightOfCode (pool : LendingPool) (tokens : Amount) (code : Unsigned 8) : Checked Ratio :=
  match MarginTier.ofCode? code.toNat with
  | some tier => pool.assetWeight tokens tier
  | none => .ok pool.assetWeights.initial

/-- The weight of borrowed tokens under a tier given by its number. A number without a tier stands
for the initial weight of a small balance. -/
def liabilityWeightOfCode (pool : LendingPool) (tokens : Amount) (code : Unsigned 8) :
    Checked Ratio :=
  match MarginTier.ofCode? code.toNat with
  | some tier => pool.liabilityWeight tokens tier
  | none => .ok pool.liabilityWeights.initial

end Leverage.LendingPool
