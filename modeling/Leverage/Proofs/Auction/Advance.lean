import Leverage.Proofs.Auction.Grid
import Leverage.Proofs.Auction.Limit

/-!
# Auctions that can be priced

The line of an auction divides the way times the steps taken by all steps. Its prices lie between the
ends of the range and fit, but the product it divides may not: `auctionPrice_of_opened` says that with
ticks of one this is all that stops the price of an order that keeps the range it was opened with. A
range is about a hundredth of the price, so there is room for every auction that starts no higher than
seven hundred million, and not for every one above: `auctionPrice_stops`.
-/

namespace Leverage

variable {direction : Direction} {slot : Slot} {price limit first last : OrderPrice}
  {oracle : OracleReading}

/-- Order prices leave no gap: what lies between two of them is one. -/
theorem Direction.Concedes.exists_between {between : Int}
    (after : direction.Concedes first.val between) (before : direction.Concedes between last.val) :
    ∃ price : OrderPrice, price.val = between := by
  cases direction with
  | long => exact Word.exists_val_eq_of_le last (le_trans (Word.unsigned_nonneg first) after) before
  | short => exact Word.exists_val_eq_of_le first (le_trans (Word.unsigned_nonneg last) before) after

namespace Order

variable {order : Order}

/-- The way of an auction times the steps that it has taken by a slot. -/
def advance (order : Order) (slot : Slot) : Int :=
  |order.auction.stop.val - order.auction.start.val| *
    min (slot.val - order.slot.val) order.duration.val

theorem advance_eq (rightWay : 0 ≤ order.auction.way order.direction) (slot : Slot) :
    order.advance slot = order.auction.way order.direction * order.stepsTaken slot := by
  rw [advance, stepsTaken, AuctionRange.way,
    Direction.concession_eq_abs (Direction.concession_nonneg_iff.1 rightWay)]

/-- No auction takes more steps than a byte counts. -/
theorem advance_le (order : Order) (slot : Slot) :
    order.advance slot ≤ |order.auction.stop.val - order.auction.start.val| * 255 := by
  have durationLt := Word.unsigned_lt order.duration
  change order.duration.val < 256 at durationLt
  exact mul_le_mul_of_nonneg_left (by omega) (abs_nonneg _)

/-- The line lies between the ends of the range, so its price is one that the format holds. -/
theorem exists_val_eq_linearPrice (rightWay : 0 ≤ order.auction.way order.direction)
    (placed : order.slot ≤ slot) :
    ∃ price : OrderPrice, price.val = order.linearPrice slot := by
  have durationNonneg := Word.unsigned_nonneg order.duration
  have takenNonneg : 0 ≤ order.stepsTaken slot :=
    le_min (sub_nonneg.2 (Word.le_iff.1 placed)) durationNonneg
  by_cases none : order.duration.val = 0
  · exact ⟨order.auction.stop, (linearPrice_of_no_auction none slot).symm⟩
  · -- No steps are at the start of the range, all of them at its stop, and the walk is monotone.
    have after := walked_concedes_walked rightWay takenNonneg
    have before := walked_concedes_walked rightWay (order.stepsTaken_le slot)
    rw [walked_duration] at before
    rw [walked, if_neg none, AuctionRange.walked_none] at after
    rw [walked_eq_linearPrice rightWay] at after before
    exact after.exists_between before

theorem auctionPrice_eq_linearPrice (rightWay : 0 ≤ order.auction.way order.direction)
    (placed : order.slot ≤ slot) (fits : order.advance slot < 2 ^ 64)
    (priceEq : price.val = order.linearPrice slot) :
    order.auctionPrice slot (.lit 1) = .ok price := by
  refine auctionPrice_eq_ok_iff.2 ⟨placed, ?_⟩
  by_cases none : order.duration.val = 0
  · rw [if_pos none]
    rw [linearPrice_of_no_auction none] at priceEq
    exact Word.ext priceEq
  · rw [if_neg none]
    rw [advance_eq rightWay] at fits
    rw [← walked_eq_linearPrice rightWay] at priceEq
    exact ⟨rightWay, fits, price, priceEq, snapToTick_one price order.direction⟩

theorem auctionPrice_eq_overflow (rightWay : 0 ≤ order.auction.way order.direction)
    (placed : order.slot ≤ slot) (beyond : 2 ^ 64 ≤ order.advance slot) (tick : OrderPrice) :
    order.auctionPrice slot tick = .error .overflow := by
  obtain ⟨elapsed, subtracted⟩ := Word.exists_unsigned_sub_eq_ok_iff.2 placed
  rw [advance_eq rightWay] at beyond
  have auctioned : order.duration.val ≠ 0 := by
    intro none
    have takenLe := order.stepsTaken_le slot
    rw [none] at takenLe
    have advanceLe := mul_nonpos_of_nonneg_of_nonpos rightWay takenLe
    omega
  have takenEq : (min elapsed (order.duration.widen : Slot)).val = order.stepsTaken slot := by
    rw [Word.val_min, Word.sub_eq_ok_iff.1 subtracted]
    rfl
  rw [← takenEq] at beyond
  rw [auctionPrice, subtracted]
  change (if order.duration = 0 then _ else _) = _
  rw [if_neg (mt Word.eq_zero_iff.1 auctioned), AuctionRange.priceAfter_eq_overflow rightWay beyond]
  rfl

/-- What an order with the range that it was opened with asks for with ticks of one, in every slot
from its own on: the price on the line, if the way times the steps taken fits the format of prices,
and nothing otherwise. It fits in every slot, for every duration, where the range starts no higher
than seven hundred million. -/
theorem auctionPrice_of_opened
    (opened : AuctionRange.ofOrder oracle order.direction limit = .ok order.auction)
    (placed : order.slot ≤ slot) :
    (order.advance slot < 2 ^ 64 →
      ∃ price, order.auctionPrice slot (.lit 1) = .ok price ∧
        price.val = order.linearPrice slot) ∧
    (2 ^ 64 ≤ order.advance slot → order.auctionPrice slot (.lit 1) = .error .overflow) ∧
    (order.auction.start.val ≤ 700000000 * Scale.price.val → order.advance slot < 2 ^ 64) := by
  obtain ⟨concedes, -⟩ := AuctionRange.ofOrder_cases opened
  have rightWay := Direction.concession_nonneg_iff.2 concedes
  refine ⟨?_, fun beyond => auctionPrice_eq_overflow rightWay placed beyond _, ?_⟩
  · intro fits
    obtain ⟨price, priceEq⟩ := exists_val_eq_linearPrice rightWay placed
    exact ⟨price, auctionPrice_eq_linearPrice rightWay placed fits priceEq, priceEq⟩
  · intro startLe
    have wayLe := AuctionRange.way_le_of_ofOrder opened
    have advanceLe := order.advance_le slot
    rw [← Direction.concession_eq_abs concedes] at advanceLe
    change _ ≤ order.auction.way order.direction * 255 at advanceLe
    change order.auction.start.val ≤ 700000000 * 10000000000 at startLe
    omega

/-- A buyer up to eight hundred million, with the longest auction there is. -/
def highBuyer : Order where
  duration := .lit 255
  auction := ⟨.lit 7920000000000000000, .lit 8000000000000000000⟩

theorem highBuyer_opened :
    AuctionRange.ofOrder {} .long (.lit 8000000000000000000) = .ok highBuyer.auction := rfl

theorem auctionPrice_of_opened_limits :
    AuctionRange.ofOrder {} .long (.lit 8000000000000000000) = .ok highBuyer.auction ∧
      highBuyer.slot ≤ .lit 100 ∧ highBuyer.advance (.lit 100) < 2 ^ 64 ∧
      (∃ price, highBuyer.auctionPrice (.lit 100) (.lit 1) = .ok price ∧
        price.val = 7951372549019607843) ∧
      2 ^ 64 ≤ highBuyer.advance (.lit 255) ∧
      highBuyer.auctionPrice (.lit 255) (.lit 1) = .error .overflow ∧
      AuctionRange.ofOrder {} .short (.lit 10007) = .ok limitedSeller.auction ∧
      limitedSeller.auction.start.val ≤ 700000000 * Scale.price.val ∧
      limitedSeller.advance (.lit 109) < 2 ^ 64 := by
  have placed : highBuyer.slot ≤ .lit 100 := by decide
  have placedToo : highBuyer.slot ≤ .lit 255 := by decide
  have fits : highBuyer.advance (.lit 100) < 2 ^ 64 := by decide
  have beyond : 2 ^ 64 ≤ highBuyer.advance (.lit 255) := by decide
  have openedLow : AuctionRange.ofOrder {} .short (.lit 10007) = .ok limitedSeller.auction := rfl
  have placedLow : limitedSeller.slot ≤ .lit 109 := by decide
  have startLe : limitedSeller.auction.start.val ≤ 700000000 * Scale.price.val := by decide
  obtain ⟨priced, -⟩ := @auctionPrice_of_opened _ _ _ highBuyer highBuyer_opened placed
  obtain ⟨-, stops, -⟩ := @auctionPrice_of_opened _ _ _ highBuyer highBuyer_opened placedToo
  obtain ⟨-, -, room⟩ := @auctionPrice_of_opened _ _ _ limitedSeller openedLow placedLow
  exact ⟨highBuyer_opened, placed, fits, priced fits, beyond, stops beyond, openedLow, startLe,
    room startLe⟩

/-- An auction may be opened that cannot be priced in all of its slots. -/
theorem auctionPrice_stops :
    ¬ ∀ (order : Order) (oracle : OracleReading) (limit : OrderPrice) (slot : Slot),
      AuctionRange.ofOrder oracle order.direction limit = .ok order.auction → order.slot ≤ slot →
        ∃ price, order.auctionPrice slot (.lit 1) = .ok price := by
  intro priced
  obtain ⟨price, pricedLast⟩ := priced highBuyer {} _ (.lit 255) highBuyer_opened (by decide)
  have stopped : highBuyer.auctionPrice (.lit 255) (.lit 1) = .error .overflow := rfl
  rw [stopped] at pricedLast
  cases pricedLast

end Order

end Leverage
