import Leverage.Perp.Price
import Leverage.Proofs.MarketMaker.Price
import Leverage.Proofs.MarketMaker.Repeg
import Leverage.Proofs.MarketMaker.Spread

/-!
# The order of the prices of a market

A repeg leaves the reserves alone, so the three prices of a market are taken at one peg, and each
side of the spread shifts the reserves against the taker: `bid_le_reserve_le_ask`.
-/

namespace Leverage

theorem MarketMaker.Repegged.onCurve {maker next : MarketMaker} {reading : OracleReading}
    (stepped : Repegged maker reading next) (curve : maker.OnCurve) : next.OnCurve := by
  rw [stepped.eq_with]
  exact ⟨curve.product_le, curve.lt_product_succ⟩

namespace PerpMarket

variable {market : PerpMarket} {reading : OracleReading} {direction : Direction}
  {taken bid reserve ask : Amount}

theorem reservePrice_cases (stands : market.reservePrice reading = .ok reserve) :
    ∃ next, market.maker.repeg reading = .ok next ∧
      next.reserves.price next.peg = .ok reserve := by
  rw [reservePrice, Checked.bind_eq_ok_iff] at stands
  exact stands

theorem takerPrice_cases (trades : market.takerPrice direction reading = .ok taken) :
    ∃ next spread shifted, market.maker.repeg reading = .ok next ∧
      next.shiftReserves direction spread = .ok shifted ∧
      shifted.price next.peg = .ok taken := by
  rw [takerPrice, Checked.bind_eq_ok_iff] at trades
  rcases trades with ⟨quoted, quotedEq, priced⟩
  obtain ⟨next, _, sides, stepped, -, -, shifted, pegEq⟩ := MarketMaker.quotation_cases quotedEq
  rw [MarketMaker.Quotation.price, pegEq] at priced
  exact ⟨next, sides.get direction, quoted.reserves, stepped, shifted, priced⟩

/-- On the curve, and with as much quote as the spread's scale has parts, takers sell for no more
than the reserve price and buy for no less, whatever the oracle reads. -/
theorem bid_le_reserve_le_ask (curve : market.maker.OnCurve)
    (deep : 1000000 ≤ market.maker.reserves.quote.val)
    (sells : market.bidPrice reading = .ok bid)
    (stands : market.reservePrice reading = .ok reserve)
    (buys : market.askPrice reading = .ok ask) :
    bid.val ≤ reserve.val ∧ reserve.val ≤ ask.val := by
  obtain ⟨next, stepped, priced⟩ := reservePrice_cases stands
  have step := MarketMaker.Repegged.of_repeg stepped
  have nextCurve : next.OnCurve := step.onCurve curve
  have nextDeep : Scale.spread.val ≤ next.reserves.quote.val := by
    rw [step.eq_with]
    exact deep
  constructor
  · obtain ⟨next', _, shifted, stepped', moved, bidPriced⟩ := takerPrice_cases sells
    obtain rfl : next' = next := Except.ok.inj (stepped'.symm.trans stepped)
    obtain ⟨quoteLe, baseLe⟩ := MarketMaker.shiftReserves_short nextCurve moved
    exact Reserves.price_le_price bidPriced priced quoteLe baseLe
  · obtain ⟨next', _, shifted, stepped', moved, askPriced⟩ := takerPrice_cases buys
    obtain rfl : next' = next := Except.ok.inj (stepped'.symm.trans stepped)
    obtain ⟨quoteLe, baseLe⟩ := MarketMaker.shiftReserves_long nextCurve nextDeep moved
    exact Reserves.price_le_price priced askPriced quoteLe baseLe

/-- A market below the oracle whose fees do not pay for the way up to it. -/
def laggingMarket : PerpMarket where
  maker :=
    { reserves := ⟨.lit 9900000000000000000, .lit 10101010101010101010⟩
      liquidity := .lit 10000000000000000000
      peg := .lit 50000
      netBase := .lit 100000000000000000
      baseSpread := .lit 1000
      maxSpread := .lit 50000
      repegIntensity := .lit 100
      exchangeFees := .lit 800000001
      retainedFees := .lit 1400000000 }

/-- The oracle reads more than the market reaches, with some doubt. -/
def doubtfulReading : OracleReading where
  price := .lit 600000000000
  confidence := .lit 500000000

theorem laggingMarket_onCurve : laggingMarket.maker.OnCurve := ⟨by decide, by decide⟩

theorem bid_le_reserve_le_ask_of_lagging :
    laggingMarket.maker.OnCurve ∧ 1000000 ≤ laggingMarket.maker.reserves.quote.val ∧
      laggingMarket.bidPrice doubtfulReading = .ok (.lit 511089543868) ∧
      laggingMarket.reservePrice doubtfulReading = .ok (.lit 511162126313) ∧
      laggingMarket.askPrice doubtfulReading = .ok (.lit 536964264078) ∧
      (511089543868 : Int) ≤ 511162126313 ∧ (511162126313 : Int) ≤ 536964264078 :=
  ⟨laggingMarket_onCurve, by decide, rfl, rfl, rfl,
    @bid_le_reserve_le_ask laggingMarket doubtfulReading (.lit 511089543868) (.lit 511162126313)
      (.lit 536964264078) laggingMarket_onCurve (by decide) rfl rfl rfl⟩

end PerpMarket

end Leverage
