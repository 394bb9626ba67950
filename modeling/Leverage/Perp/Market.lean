import Leverage.Lending.Pool
import Leverage.MarketMaker.Swap
import Leverage.MarketMaker.Repeg

/-!
# Perpetual markets

A perpetual market is a market maker together with the settlement pool from which users are paid and
the margin terms of its positions. Trades and repegs act on its market maker alone.
-/

namespace Leverage

/-- A scaled deposit that a market holds in a lending pool. -/
structure PooledBalance where
  scaled : Amount := 0
  marketIndex : MarketIndex := 0
deriving DecidableEq, Repr, Inhabited

structure PerpMarket where
  marketIndex : MarketIndex := 0
  maker : MarketMaker := {}
  /-- The deposit from which users' gains are paid, held in the lending pool of the quote token. -/
  pnlPool : PooledBalance := {}
  marginRatios : ByTier Ratio := ⟨0, 0⟩
  /-- How much of a gain that is not settled counts as collateral. -/
  pnlWeights : ByTier Ratio := ⟨0, 0⟩
  /-- How strongly the weight of a gain reacts to its size. -/
  pnlSizeFactor : Ratio := 0
  /-- The imbalance up to which gains count in full; zero for no bound. -/
  pnlImbalanceBound : Amount := 0
  /-- How strongly margin ratios react to the size of a position. -/
  sizeFactor : Ratio := 0
deriving DecidableEq, Repr, Inhabited

namespace PerpMarket

def swap (market : PerpMarket) (asset : Asset) (amount : Amount) (direction : Direction) :
    Checked PerpMarket := do
  return { market with maker := ← market.maker.swap asset amount direction }

/-- The market after a trade of base. The sign of the amount has no meaning of its own. -/
def trade (market : PerpMarket) (amount : SignedAmount) (direction : Direction) :
    Checked PerpMarket :=
  market.swap .base amount.magnitude direction

def repeg (market : PerpMarket) (oracle : OracleReading) : Checked PerpMarket := do
  return { market with maker := ← market.maker.repeg oracle }

end PerpMarket

end Leverage
