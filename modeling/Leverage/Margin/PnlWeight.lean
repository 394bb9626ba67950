import Leverage.Margin.SizeCurve
import Leverage.Perp.Pnl

/-!
# Weights of unsettled gains

A gain that is not settled counts as collateral only in part. Under the initial tier the part
shrinks with the imbalance between all gains and the settlement pool, and then with the size of the
gain itself; under the maintenance tier it is fixed.
-/

namespace Leverage.PerpMarket

/-- The initial weight of a gain after the haircut for imbalance: beyond the bound the weight falls
in inverse proportion to the imbalance. -/
def imbalancedWeight (market : PerpMarket) (pool : LendingPool) (oracle : OracleReading) :
    Checked Amount :=
  let weight : Amount := market.pnlWeights.initial.widen
  if market.pnlImbalanceBound = 0 then .ok weight
  else do
    let imbalance ← market.pnlImbalance pool oracle
    if (← market.pnlImbalanceBound.cast (.signed 128)) < imbalance then
      let lifted ← weight.mul market.pnlImbalanceBound
      lifted.div (← imbalance.cast _)
    else
      return weight

/-- The weight at which a gain or loss that is not settled counts. -/
def unsettledWeight (market : PerpMarket) (pool : LendingPool) (pnl : SignedAmount)
    (tier : MarginTier) (oracle : OracleReading) : Checked Ratio :=
  match tier with
  | .initial => do
    let weight ← market.imbalancedWeight pool oracle
    discountedWeight pnl.magnitude market.pnlSizeFactor (← weight.cast _)
  | .maintenance => .ok market.pnlWeights.maintenance

end Leverage.PerpMarket
