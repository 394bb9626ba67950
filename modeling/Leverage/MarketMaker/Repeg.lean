import Leverage.MarketMaker.Basic
import Leverage.Oracle

/-!
# Repegging

The peg follows the oracle, so that the market maker stands at the oracle's price. Moving the peg
revalues what the users hold and so has a cost, which may be negative. It is paid from retained
fees, of which an amount of half the exchange fees is never touched; where the fees do not suffice,
the peg goes as far as they pay for.
-/

namespace Leverage.MarketMaker

/-- The peg that brings the market maker to a price, but never less than one. -/
def targetPeg (maker : MarketMaker) (price : SignedAmount) : Checked Amount := do
  let lifted ← (← price.cast (.unsigned 128)).mul maker.reserves.base
  let peg ← lifted.div (← maker.reserves.quote.mul Scale.priceToPeg)
  return max peg (.lit 1)

/-- The quote reserve that is left once every user has closed. -/
def terminalQuote (maker : MarketMaker) : Checked Amount := do
  let base ← (← maker.reserves.base.cast (.signed 128)).add maker.netBase
  let closed ← base.cast (.unsigned 128)
  (← maker.invariant).div closed

/-- The quote reserve beyond the one that is left once every user has closed: the reserve units
whose worth in quote a move of the peg changes. -/
def quoteSurplus (maker : MarketMaker) : Checked SignedAmount := do
  let terminal ← maker.terminalQuote
  (← maker.reserves.quote.cast (.signed 128)).sub (← terminal.cast _)

/-- What it costs to move the peg, in quote. -/
def repegCost (maker : MarketMaker) (peg : Amount) : Checked SignedAmount := do
  let surplus ← maker.quoteSurplus
  let move ← (← peg.cast (.signed 128)).sub (← maker.peg.cast _)
  surplus.mulDiv move (signedScale Scale.peggedReserveToQuote)

/-- What may be spent on moving the peg: the retained fees beyond half the exchange fees. -/
def repegBudget (maker : MarketMaker) : Checked Amount := do
  let reserved ← (← maker.exchangeFees.div (.lit 2)).cast (.signed 128)
  let free ← maker.retainedFees.sub reserved
  return (max free 0).magnitude

/-- The peg nearest to the target that a budget pays for. -/
def affordablePeg (maker : MarketMaker) (target budget : Amount) : Checked Amount := do
  let surplus ← maker.quoteSurplus
  let reach ← budget.mulDiv Scale.peggedReserveToQuote surplus.magnitude
  if maker.peg < target then
    return min (← maker.peg.add reach) target
  else
    return max (max (maker.peg.monus reach) target) (.lit 1)

def settlePeg (maker : MarketMaker) (peg : Amount) (cost : SignedAmount) : Checked MarketMaker := do
  return { maker with peg := peg, retainedFees := ← maker.retainedFees.sub cost }

/-- The market maker with its peg moved toward a target, as far as a budget pays for. -/
def moveToward (maker : MarketMaker) (target budget : Amount) : Checked MarketMaker := do
  let limit ← budget.cast (.signed 128)
  let cost ← maker.repegCost target
  if limit < cost then
    let peg ← maker.affordablePeg target budget
    maker.settlePeg peg (← maker.repegCost peg)
  else
    maker.settlePeg target cost

/-- The market maker with its peg brought up to an oracle's reading. -/
def repeg (maker : MarketMaker) (oracle : OracleReading) : Checked MarketMaker :=
  if maker.repegIntensity = 0 then .ok maker
  else if oracle.price ≤ 0 then .error .invalidOracle
  else do
    let target ← maker.targetPeg oracle.price
    if target = maker.peg then
      return maker
    else
      maker.moveToward target (← maker.repegBudget)

end Leverage.MarketMaker
