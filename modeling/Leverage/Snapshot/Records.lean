import Leverage.Auction.Order
import Leverage.Margin.Requirement
import Leverage.Oracle
import Leverage.Snapshot.Layout

/-!
# Layouts of the records

The bytes in which pools, markets, positions, readings and orders are stored. Fields stand in the
order given here, and what comes once for each side or tier stands side by side.
-/

namespace Leverage.Layout

variable {α : Type}

/-! ## Choices and families -/

def side : Layout Side := choice Side.code Side.ofCode?

def marginTier : Layout MarginTier := choice MarginTier.code MarginTier.ofCode?

def direction : Layout Direction := choice Direction.code Direction.ofCode?

def marketKind : Layout MarketKind := choice MarketKind.code MarketKind.ofCode?

/-- Deposits before borrows. -/
def bySide (one : Layout α) : Layout (BySide α) :=
  (one.pair one).convert (fun (deposit, borrow) => ⟨deposit, borrow⟩)
    (fun values => (values.deposit, values.borrow))

/-- The initial tier before the maintenance tier. -/
def byTier (one : Layout α) : Layout (ByTier α) :=
  (one.pair one).convert (fun (initial, maintenance) => ⟨initial, maintenance⟩)
    (fun values => (values.initial, values.maintenance))

def amount : Layout Amount := word _

def signedAmount : Layout SignedAmount := word _

def ratio : Layout Ratio := word _

def marketIndex : Layout MarketIndex := word _

/-! ## Lending -/

def rateCurve : Layout RateCurve :=
  (ratio.pair (ratio.pair ratio)).convert
    (fun (kink, kinkRate, fullRate) => { kink, kinkRate, fullRate })
    (fun curve => (curve.kink, curve.kinkRate, curve.fullRate))

def lendingPool : Layout LendingPool :=
  (marketIndex.pair <| key.pair <| key.pair <| (word (.unsigned 8)).pair <|
    (bySide amount).pair <| (bySide amount).pair <| rateCurve.pair <|
    (word (.signed 64)).pair <| (word (.signed 64)).pair <| (bySide amount).pair <|
    amount.pair <| ratio.pair <| (byTier ratio).pair (byTier ratio)).convert
    (fun (marketIndex, mint, oracle, decimals, index, scaled, curve, accruedAt, averagedAt,
        average, guardThreshold, sizeFactor, assetWeights, liabilityWeights) =>
      { marketIndex, mint, oracle, decimals, index, scaled, curve, accruedAt, averagedAt, average,
        guardThreshold, sizeFactor, assetWeights, liabilityWeights })
    (fun pool => (pool.marketIndex, pool.mint, pool.oracle, pool.decimals, pool.index, pool.scaled,
      pool.curve, pool.accruedAt, pool.averagedAt, pool.average, pool.guardThreshold,
      pool.sizeFactor, pool.assetWeights, pool.liabilityWeights))

def poolPosition : Layout PoolPosition :=
  (marketIndex.pair (side.pair amount)).convert
    (fun (marketIndex, side, scaled) => { marketIndex, side, scaled })
    (fun position => (position.marketIndex, position.side, position.scaled))

def oracleReading : Layout OracleReading :=
  (signedAmount.pair (amount.pair (word (.unsigned 64)))).convert
    (fun (price, confidence, slot) => { price, confidence, slot })
    (fun reading => (reading.price, reading.confidence, reading.slot))

/-! ## Perpetual markets -/

def reserves : Layout Reserves :=
  (amount.pair amount).convert (fun (base, quote) => { base, quote })
    (fun reserves => (reserves.base, reserves.quote))

def marketMaker : Layout MarketMaker :=
  (key.pair <| reserves.pair <| amount.pair <| amount.pair <| signedAmount.pair <|
    signedAmount.pair <| ratio.pair <| ratio.pair <| (word (.unsigned 8)).pair <|
    amount.pair signedAmount).convert
    (fun (oracle, reserves, liquidity, peg, netBase, netQuote, baseSpread, maxSpread,
        repegIntensity, exchangeFees, retainedFees) =>
      { oracle, reserves, liquidity, peg, netBase, netQuote, baseSpread, maxSpread, repegIntensity,
        exchangeFees, retainedFees })
    (fun maker => (maker.oracle, maker.reserves, maker.liquidity, maker.peg, maker.netBase,
      maker.netQuote, maker.baseSpread, maker.maxSpread, maker.repegIntensity, maker.exchangeFees,
      maker.retainedFees))

def pooledBalance : Layout PooledBalance :=
  (amount.pair marketIndex).convert (fun (scaled, marketIndex) => { scaled, marketIndex })
    (fun balance => (balance.scaled, balance.marketIndex))

def perpMarket : Layout PerpMarket :=
  (marketIndex.pair <| marketMaker.pair <| pooledBalance.pair <| (byTier ratio).pair <|
    (byTier ratio).pair <| ratio.pair <| amount.pair ratio).convert
    (fun (marketIndex, maker, pnlPool, marginRatios, pnlWeights, pnlSizeFactor, pnlImbalanceBound,
        sizeFactor) =>
      { marketIndex, maker, pnlPool, marginRatios, pnlWeights, pnlSizeFactor, pnlImbalanceBound,
        sizeFactor })
    (fun market => (market.marketIndex, market.maker, market.pnlPool, market.marginRatios,
      market.pnlWeights, market.pnlSizeFactor, market.pnlImbalanceBound, market.sizeFactor))

/-! ## Orders -/

def auctionRange : Layout AuctionRange :=
  ((word (.unsigned 64)).pair (word (.unsigned 64))).convert
    (fun (start, stop) => { start, stop }) (fun range => (range.start, range.stop))

def order : Layout Order :=
  ((word (.unsigned 64)).pair <| (word (.unsigned 64)).pair <| marketIndex.pair <|
    direction.pair <| bool.pair <| (word (.unsigned 8)).pair auctionRange).convert
    (fun (slot, price, marketIndex, direction, postOnly, duration, auction) =>
      { slot, price, marketIndex, direction, postOnly, duration, auction })
    (fun order => (order.slot, order.price, order.marketIndex, order.direction, order.postOnly,
      order.duration, order.auction))

end Leverage.Layout
