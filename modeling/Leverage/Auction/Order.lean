import Leverage.MarketMaker.Basic

/-!
# Orders

The part of an order that its auction and its filling depend on.
-/

namespace Leverage

structure AuctionRange where
  start : OrderPrice := 0
  stop : OrderPrice := 0
deriving DecidableEq, Repr, Inhabited

structure Order where
  slot : Slot := 0
  /-- The limit of the order, or zero if it has none. -/
  price : OrderPrice := 0
  marketIndex : MarketIndex := 0
  direction : Direction := .long
  /-- Whether the order only ever adds to a book. -/
  postOnly : Bool := false
  /-- The slots that the order's auction takes. -/
  duration : Unsigned 8 := 0
  auction : AuctionRange := {}
deriving DecidableEq, Repr, Inhabited

namespace Order

/-- A resting order accepts a taker at a price if the two face each other in one market and the
price is within the limit of the resting order. -/
def Accepts (maker taker : Order) (price : OrderPrice) : Prop :=
  maker.direction ≠ taker.direction ∧ maker.marketIndex = taker.marketIndex ∧
    match maker.direction with
    | .long => price ≤ maker.price
    | .short => maker.price ≤ price

instance (maker taker : Order) (price : OrderPrice) : Decidable (maker.Accepts taker price) := by
  unfold Accepts
  cases maker.direction <;> infer_instance

end Order

end Leverage
