import Leverage.Proofs.Auction.Walk
import Mathlib.Algebra.Order.Group.Abs

/-!
# Auction prices on the grid

The price of an auction is the straight line between the ends of its range, put on the grid of ticks
on the side of the order. The price of an order without an auction is the end of its range as it
stands, and that need not be on the grid: `auctionPrice_snapsTo_iff` says when it is.
-/

namespace Leverage

theorem Direction.concession_eq_abs {direction : Direction} {first second : Int}
    (concedes : direction.Concedes first second) :
    direction.concession first second = |second - first| := by
  cases direction with
  | long => exact (abs_of_nonneg (sub_nonneg.2 concedes)).symm
  | short =>
    rw [abs_sub_comm]
    exact (abs_of_nonneg (sub_nonneg.2 concedes)).symm

namespace Order

variable {order : Order} {slot : Slot} {tick price : OrderPrice}

/-- The price on the straight line from the start of the range to the stop, the part of the way
floored. Without an auction it is the stop. -/
def linearPrice (order : Order) (slot : Slot) : Int :=
  if order.duration.val = 0 then order.auction.stop.val
  else
    order.direction.conceding order.auction.start.val
      (|order.auction.stop.val - order.auction.start.val| *
        min (slot.val - order.slot.val) order.duration.val / order.duration.val)

/-- An auction that runs toward the counterparty walks along the line. -/
theorem walked_eq_linearPrice (rightWay : 0 ≤ order.auction.way order.direction) (slot : Slot) :
    order.walked (order.stepsTaken slot) = order.linearPrice slot := by
  have wayEq : order.auction.way order.direction =
      |order.auction.stop.val - order.auction.start.val| :=
    Direction.concession_eq_abs (Direction.concession_nonneg_iff.1 rightWay)
  simp only [walked, linearPrice, AuctionRange.walked, stepsTaken, wayEq]

theorem linearPrice_of_no_auction (none : order.duration.val = 0) (slot : Slot) :
    order.linearPrice slot = order.auction.stop.val :=
  if_pos none

/-- With an auction the price is the grid price nearest to the line on the side of the order. -/
theorem auctionPrice_snapsTo (priced : order.auctionPrice slot tick = .ok price)
    (auctioned : order.duration.val ≠ 0) :
    order.direction.SnapsTo tick.val (order.linearPrice slot) price.val := by
  rcases auctionPrice_cases priced with ⟨none, -⟩ | ⟨-, rightWay, snapped⟩
  · exact absurd none auctioned
  · rwa [walked_eq_linearPrice rightWay] at snapped

/-- A price on the grid is the grid price nearest to the line on the side of the order. All prices
are on the grid but those of orders without an auction whose range stops off it. -/
theorem auctionPrice_snapsTo_iff (priced : order.auctionPrice slot tick = .ok price) :
    (order.direction.SnapsTo tick.val (order.linearPrice slot) price.val ↔ tick.val ∣ price.val) ∧
      (tick.val ∣ price.val ↔ order.duration.val ≠ 0 ∨ tick.val ∣ order.auction.stop.val) := by
  rcases auctionPrice_cases priced with ⟨none, rfl⟩ | ⟨auctioned, -, -⟩
  · rw [linearPrice_of_no_auction none]
    exact ⟨⟨fun snapped => snapped.dvd, .of_dvd order.direction⟩,
      (or_iff_right (not_not.2 none)).symm⟩
  · have snapped := auctionPrice_snapsTo priced auctioned
    exact ⟨iff_of_true snapped snapped.dvd, iff_of_true snapped.dvd (Or.inl auctioned)⟩

theorem auctionPrice_snapsTo_of_offGridSeller :
    offGridSeller.auctionPrice (.lit 103) (.lit 10) = .ok (.lit 970) ∧
      offGridSeller.linearPrice (.lit 103) = 961 ∧ offGridSeller.duration.val ≠ 0 ∧
      (10 : Int) ∣ 970 ∧ Direction.short.SnapsTo 10 961 970 := by
  have priced : offGridSeller.auctionPrice (.lit 103) (.lit 10) = .ok (.lit 970) := rfl
  have auctioned : offGridSeller.duration.val ≠ 0 := by decide
  obtain ⟨nearest, onGrid⟩ := auctionPrice_snapsTo_iff priced
  have dvd := onGrid.2 (Or.inl auctioned)
  exact ⟨priced, rfl, auctioned, dvd, nearest.2 dvd⟩

/-- A buyer without an auction whose price is off the grid. -/
def offGridBuyer : Order where
  auction := ⟨0, .lit 105⟩

/-- That price stays off the grid. -/
theorem auctionPrice_off_grid :
    ¬ ∀ (order : Order) (slot : Slot) (tick price : OrderPrice), 0 < tick →
      order.auctionPrice slot tick = .ok price →
        tick.val ∣ price.val ∧
          order.direction.SnapsTo tick.val (order.linearPrice slot) price.val := by
  intro onGrid
  have priced : offGridBuyer.auctionPrice 0 (.lit 10) = .ok (.lit 105) := rfl
  obtain ⟨dvd, -⟩ := onGrid _ _ _ _ (by decide) priced
  exact absurd dvd (by decide)

end Order

end Leverage
