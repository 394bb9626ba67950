import Leverage.Auction.Order
import Leverage.Oracle

/-!
# Auction prices

The auction of an order starts at a price that is good for makers to wait for and moves in equal
steps, slot by slot, to the price that the taker accepts at worst. Prices are put on the grid of
ticks on the taker's side: a buyer's price is rounded down and a seller's up.
-/

namespace Leverage

namespace AuctionRange

/-- The range of an order with a limit: it starts a hundredth of the limit inside of it. -/
def ofLimit (direction : Direction) (limit : OrderPrice) : Checked AuctionRange := do
  let improvement ← limit.div (.lit 100)
  let start ← match direction with
    | .long => limit.sub improvement
    | .short => limit.add improvement
  return ⟨start, limit⟩

/-- How far through the oracle's price a market order goes, on `Scale.spread`: one hundredth. -/
def marketReach : Direction → Amount
  | .long => .lit 1010000
  | .short => .lit 990000

/-- The range of an order without a limit: it starts at the oracle's price and stops a hundredth
beyond it. -/
def ofOracle (direction : Direction) (oracle : OracleReading) : Checked AuctionRange := do
  let reached ← oracle.price.magnitude.mulDiv (marketReach direction) Scale.spread
  let stop ← reached.cast _
  let start ← oracle.price.cast _
  return ⟨start, stop⟩

/-- The range of a new order. A limit of zero is none. -/
def ofOrder (oracle : OracleReading) (direction : Direction) (limit : OrderPrice) :
    Checked AuctionRange :=
  if 0 < limit then ofLimit direction limit else ofOracle direction oracle

/-- The price after some of the steps of an auction. -/
def priceAfter (range : AuctionRange) (direction : Direction) (taken steps : Slot) :
    Checked OrderPrice :=
  match direction with
  | .long => do
    let way ← range.stop.sub range.start
    range.start.add (← way.mulDiv taken steps)
  | .short => do
    let way ← range.start.sub range.stop
    range.start.sub (← way.mulDiv taken steps)

end AuctionRange

/-- A price on the grid of ticks: the next grid price below for a buyer and above for a seller. No
price needs no grid. -/
def snapToTick (price tick : OrderPrice) (direction : Direction) : Checked OrderPrice :=
  if price = 0 then .ok 0
  else do
    let excess ← price.rem tick
    if excess = 0 then
      return price
    else
      match direction with
      | .long => price.sub excess
      | .short => do (← price.add tick).sub excess

/-- Whether the auction of an order placed in a slot is over. An auction that takes no slots is
over at once. -/
def auctionOver (placed : Slot) (duration : Unsigned 8) (slot : Slot) : Checked Bool :=
  if duration = 0 then .ok true
  else do
    let elapsed ← slot.sub placed
    return decide (duration.widen < elapsed)

namespace Order

/-- The auction price of an order in a slot. Without an auction the price is where the range stops,
on the grid or not. -/
def auctionPrice (order : Order) (slot : Slot) (tick : OrderPrice) : Checked OrderPrice := do
  let elapsed ← slot.sub order.slot
  if order.duration = 0 then
    return order.auction.stop
  else
    let steps : Slot := order.duration.widen
    let price ← order.auction.priceAfter order.direction (min elapsed steps) steps
    snapToTick price tick order.direction

def auctionOver (order : Order) (slot : Slot) : Checked Bool :=
  Leverage.auctionOver order.slot order.duration slot

end Order

end Leverage
