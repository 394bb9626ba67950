import Leverage.Lending.Balance
import Leverage.Perp.Market

/-!
# Profit and loss

What all users together have gained against the market maker, at an oracle's price, and how much of
it the settlement pool can pay.
-/

namespace Leverage

/-- The value of a base position at a price, both without sign, in quote. -/
def basePositionValue (base price : SignedAmount) : Checked Amount :=
  base.magnitude.mulDiv price.magnitude Scale.pricedReserveToQuote

namespace PerpMarket

/-- The gains of all users together: what their base is worth plus what they hold in quote. -/
def netPnl (market : PerpMarket) (oracle : OracleReading) : Checked SignedAmount := do
  let priced ← market.maker.netBase.mulDiv oracle.price (signedScale Scale.base)
  let value ← priced.div (signedScale Scale.priceToQuote)
  value.add market.maker.netQuote

def availablePnl (market : PerpMarket) (pool : LendingPool) : Checked Amount :=
  pool.tokensOfScaled .deposit market.pnlPool.scaled

/-- By how much the gains of all users exceed what the settlement pool holds. -/
def pnlImbalance (market : PerpMarket) (pool : LendingPool) (oracle : OracleReading) :
    Checked SignedAmount := do
  let gains ← market.netPnl oracle
  let available ← market.availablePnl pool
  gains.sub (← available.cast _)

end PerpMarket

end Leverage
