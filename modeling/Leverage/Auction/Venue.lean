import Leverage.Auction.Price

/-!
# Venues

Where a taker order may be filled, in the order in which the places are tried. Resting orders come
first and may fill an order at any time; everything else waits until the auction is over.
-/

namespace Leverage

inductive PerpVenue where
  | restingOrder
  | marketMaker
deriving DecidableEq, Repr

inductive SpotVenue where
  | restingOrder
  | externalMarket
deriving DecidableEq, Repr

/-- A venue that is open, as a list. -/
def openVenue {α : Type} (venue : α) (isOpen : Bool) : List α :=
  if isOpen then [venue] else []

namespace Order

def perpVenues (taker : Order) (restingThere makerThere : Bool) (slot : Slot) :
    Checked (List PerpVenue) := do
  let makerOpen ← if makerThere then taker.auctionOver slot else .ok false
  return openVenue .restingOrder restingThere ++ openVenue .marketMaker makerOpen

/-- The places where a taker on a spot market may be filled. An order that only adds to a book is
never sent to an external market. -/
def spotVenues (taker : Order) (restingThere externalThere : Bool) (slot : Slot) :
    Checked (List SpotVenue) := do
  let externalOpen ← if !taker.postOnly && externalThere then taker.auctionOver slot else .ok false
  return openVenue .restingOrder restingThere ++ openVenue .externalMarket externalOpen

end Order

end Leverage
