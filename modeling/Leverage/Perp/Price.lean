import Leverage.MarketMaker.Spread
import Leverage.Perp.Market

/-!
# Prices of a perpetual market

All prices are taken after the peg is brought up to the oracle. Takers sell at the bid and buy at
the ask, which lie round the reserve price.
-/

namespace Leverage

def gapToOracle (price : Amount) (oracle : OracleReading) : Checked SignedAmount := do
  (← price.cast (.signed 128)).sub oracle.price

namespace PerpMarket

def reservePrice (market : PerpMarket) (oracle : OracleReading) : Checked Amount := do
  (← market.maker.repeg oracle).price

def takerPrice (market : PerpMarket) (direction : Direction) (oracle : OracleReading) :
    Checked Amount := do
  (← market.maker.quotation direction oracle).price

/-- The price at which a taker sells. -/
def bidPrice (market : PerpMarket) (oracle : OracleReading) : Checked Amount :=
  market.takerPrice .short oracle

/-- The price at which a taker buys. -/
def askPrice (market : PerpMarket) (oracle : OracleReading) : Checked Amount :=
  market.takerPrice .long oracle

def reserveGap (market : PerpMarket) (oracle : OracleReading) : Checked SignedAmount := do
  gapToOracle (← market.reservePrice oracle) oracle

end PerpMarket

end Leverage
