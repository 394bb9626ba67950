import Leverage.MarketMaker.Repeg

/-!
# Spreads

The market maker sells above its own price and buys below it. Each side starts at half of the base
spread. If the market maker stands off the oracle's price, the side on which it would trade away
from the oracle is widened by that gap and by the oracle's doubt, and in the end both sides are
scaled down to the bound on their sum.
-/

namespace Leverage.MarketMaker

/-- How far a price stands above the oracle's, as a part of itself on `Scale.spread`. -/
def oracleGap (price : Amount) (oracle : OracleReading) : Checked SignedAmount := do
  let own ← price.cast (.signed 128)
  (← own.sub oracle.price).mulDiv (signedScale Scale.spread) own

def oracleDoubt (price : Amount) (oracle : OracleReading) : Checked Amount :=
  oracle.confidence.mulDiv Scale.spread price

/-- Both sides of a spread, scaled down where their sum is beyond the bound. -/
def capSpread (spread : ByDirection Amount) (bound : Amount) : Checked (ByDirection Amount) := do
  let total ← spread.long.add spread.short
  if bound < total then
    let long ← spread.long.mulDiv bound total
    let short ← spread.short.mulDiv bound total
    return ⟨long, short⟩
  else
    return spread

def spread (maker : MarketMaker) (oracle : OracleReading) (price : Amount) :
    Checked (ByDirection Amount) := do
  let half ← (maker.baseSpread.widen : Amount).div (.lit 2)
  let gap ← oracleGap price oracle
  let doubt ← oracleDoubt price oracle
  let widened ← gap.magnitude.add doubt
  let sides : ByDirection Amount :=
    if gap < 0 then ⟨max half widened, half⟩ else ⟨half, max half widened⟩
  capSpread sides maker.maxSpread.widen

/-- The reserves shifted against the taker: the quote reserve moves by half of the spread, but by no
less than one part, and the base reserve follows from the invariant. -/
def shiftReserves (maker : MarketMaker) (direction : Direction) (spread : Amount) :
    Checked Reserves :=
  if spread = 0 then .ok maker.reserves
  else do
    let half := max (← spread.div (.lit 2)) (.lit 1)
    let shift ← maker.reserves.quote.mulDiv half Scale.spread
    let quote ← match direction with
      | .long => maker.reserves.quote.add shift
      | .short => maker.reserves.quote.sub shift
    let base ← (← maker.invariant).div quote
    return ⟨base, quote⟩

/-- What a taker trades against: shifted reserves and the peg that prices them. -/
structure Quotation where
  reserves : Reserves
  peg : Amount
deriving DecidableEq, Repr

def Quotation.price (quotation : Quotation) : Checked Amount :=
  quotation.reserves.price quotation.peg

/-- What the market maker quotes in a direction, after its peg is brought up to the oracle. -/
def quotation (maker : MarketMaker) (direction : Direction) (oracle : OracleReading) :
    Checked Quotation := do
  let repegged ← maker.repeg oracle
  let price ← repegged.price
  let spread ← repegged.spread oracle price
  let reserves ← repegged.shiftReserves direction (spread.get direction)
  return ⟨reserves, repegged.peg⟩

end Leverage.MarketMaker
